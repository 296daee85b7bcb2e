import Spacecraft.CommandLine.Session
import Spacecraft.Proofs.Config.Validation

/-!
# The status of a run command

`runWith` reads a configuration text, builds the simulation and runs it, and its status says
how far it got: 2 when the text is not a JSON object or reading, validating or building it
stops with a configuration fault, 0 when the built simulation runs to completion, 1
otherwise. A fault escapes the command when building stops with a fault of another kind,
when the run re-raises one, or when the ephemeris cannot be written. `exit_contract` says all
of this through `assemble`, the stage that turns a text into a simulation.

Validation does not look at the seed, but the random generators refuse a negative one while
the simulation is built (`ofConfig_ne_ok_of_seedRefused`): such a description is accepted and
never runs, and the fault its generator raises escapes the command.
-/

namespace Spacecraft

theorem Disturbance.make_ne_ok_of_neg {intensity : Float} {seed : Int} (h : seed < 0)
    (d : Disturbance) : Disturbance.make intensity seed ≠ .ok d := by
  intro hd
  unfold Disturbance.make at hd
  by_cases hi : intensity < 0.0 <;> simp [hi, h] at hd

theorem Sensor.make_ne_ok_of_neg {noise : Float} {seed : Int} (h : seed < 0) (s : Sensor) :
    Sensor.make noise seed ≠ .ok s := by
  intro hs
  unfold Sensor.make Sensor.generator at hs
  by_cases hn : noise < 0.0 <;> simp [hn, h] at hs
  cases hs

namespace Simulation

theorem torqueModels_ne_ok_of_seed {c : TorqueSettings} {env : Environment}
    (hd : 0.0 < c.randomDisturbance) (hs : c.seed.value < 0) (ts : List TorqueModel) :
    torqueModels c env ≠ .ok ts := by
  intro h
  unfold torqueModels at h
  simp only [gt_iff_lt, hd, if_true] at h
  -- the scenario is built first, on either branch; the disturbance after it
  split at h
  · obtain ⟨_, -, h⟩ := Outcome.bind_eq_ok h
    obtain ⟨d, hmake, -⟩ := Outcome.bind_eq_ok h
    exact Disturbance.make_ne_ok_of_neg hs d hmake
  · obtain ⟨_, -, h⟩ := Outcome.bind_eq_ok h
    obtain ⟨_, -, h⟩ := Outcome.bind_eq_ok h
    obtain ⟨d, hmake, -⟩ := Outcome.bind_eq_ok h
    exact Disturbance.make_ne_ok_of_neg hs d hmake

theorem torqueLaw_ne_ok_of_seed {c : TorqueSettings} {env : Environment} {g : Option Guidance}
    {law : String} (hl : c.law = some law) (hp : law ≠ "point")
    (hs : c.detumbleSensing = "magnetometer" ∧ c.seed.value < 0 ∨
      0.0 < c.gyrometerNoise ∧ c.seed.value + 1 < 0) (l : Option TorqueLaw) :
    torqueLaw c env g ≠ .ok l := by
  intro h
  unfold torqueLaw at h
  rw [hl] at h
  simp only [beq_iff_eq, hp, if_false, gt_iff_lt] at h
  rcases hs with ⟨hm, hs⟩ | ⟨hn, hs⟩
  · rw [if_pos hm] at h
    obtain ⟨m, hmake, -⟩ := Outcome.bind_eq_ok h
    exact Sensor.make_ne_ok_of_neg hs m hmake
  · simp only [hn, if_true] at h
    -- the detumbler comes first, from the magnetometer or from the field model
    split at h
    · obtain ⟨_, -, h⟩ := Outcome.bind_eq_ok h
      obtain ⟨_, -, h⟩ := Outcome.bind_eq_ok h
      obtain ⟨_, hgyro, -⟩ := Outcome.bind_eq_ok h
      obtain ⟨m, hmake, -⟩ := Outcome.map_eq_ok hgyro
      exact Sensor.make_ne_ok_of_neg hs m hmake
    · obtain ⟨_, -, h⟩ := Outcome.bind_eq_ok h
      obtain ⟨_, hgyro, -⟩ := Outcome.bind_eq_ok h
      obtain ⟨m, hmake, -⟩ := Outcome.map_eq_ok hgyro
      exact Sensor.make_ne_ok_of_neg hs m hmake

/-- Torque settings one of whose random generators is seeded with a negative number: the
disturbance, or the magnetometer or the gyrometer of a detumbling law. -/
def SeedRefused (c : TorqueSettings) : Prop :=
  (0.0 < c.randomDisturbance ∧ c.seed.value < 0) ∨
  ∃ law, c.law = some law ∧ law ≠ "point" ∧
    (c.detumbleSensing = "magnetometer" ∧ c.seed.value < 0 ∨
      0.0 < c.gyrometerNoise ∧ c.seed.value + 1 < 0)

/-- A description whose generators would take a negative seed is never built. -/
theorem ofConfig_ne_ok_of_seedRefused {c : RunConfig} (h : SeedRefused c.torques)
    (sim : Simulation) : ofConfig c ≠ .ok sim := by
  intro hsim
  unfold ofConfig at hsim
  obtain ⟨_, -, hsim⟩ := Outcome.bind_eq_ok hsim
  obtain ⟨_, -, hsim⟩ := Outcome.bind_eq_ok hsim
  obtain ⟨_, -, hsim⟩ := Outcome.bind_eq_ok hsim
  simp only at hsim
  -- the guidance comes next, built only when a law is asked for; the torques follow it
  split at hsim
  all_goals
    obtain ⟨_, -, hsim⟩ := Outcome.bind_eq_ok hsim
    obtain ⟨_, htorques, hsim⟩ := Outcome.bind_eq_ok hsim
    obtain ⟨_, hlaw, -⟩ := Outcome.bind_eq_ok hsim
    rcases h with ⟨hd, hs⟩ | ⟨law, hl, hp, hs⟩
    · exact torqueModels_ne_ok_of_seed hd hs _ htorques
    · exact torqueLaw_ne_ok_of_seed hl hp hs _ hlaw

end Simulation

namespace CommandLine

/-- What a configuration text assembles into: nothing when it is not a JSON object, else the
simulation that reading, validating and building it give, or the fault that stopped them. -/
def assemble (text : String) : Option (Outcome Simulation) :=
  match Json.parse text with
  | some (.obj fields) => some (RunConfig.ofJson (.obj fields) >>= Simulation.ofConfig)
  | _ => none

/-- The ephemeris a run's first observer recorded, empty when it recorded none. -/
def recorded (r : RunRecord) : Ephemeris := (r.observers.head?.bind Observer.ephemeris?).getD {}

/-- The status of a run command on a configuration text. -/
def status (text : String) : Nat :=
  match assemble text with
  | none => 2
  | some (.error f) => if Fault.refusesConfiguration f then 2 else 1
  | some (.ok sim) => if ((sim.run []).summary.map RunSummary.success).getD false then 0 else 1

/-- A text the command refuses as a configuration: it is not a JSON object, or reading,
validating or building it stops with a configuration fault. -/
def Refused (text : String) : Prop :=
  assemble text = none ∨ ∃ m, assemble text = some (.error (.configuration m))

/-- A text whose simulation is built and runs to completion. -/
def Completes (text : String) : Prop :=
  ∃ sim, assemble text = some (.ok sim) ∧
    ∃ s, (sim.run []).summary = some s ∧ s.reason = .completed

/-- The faults that escape a run command: one other than a configuration fault that stops the
building, one that the run re-raises, and one met writing the ephemeris as text. -/
inductive Escapes (o : RunOptions) (text : String) : Fault → Prop
  | build {f : Fault} : assemble text = some (.error f) → Fault.refusesConfiguration f = false →
      Escapes o text f
  | run {sim : Simulation} {f : Fault} : assemble text = some (.ok sim) →
      (sim.run []).escaped = some f → Escapes o text f
  | write {sim : Simulation} {path : String} {f : Fault} : assemble text = some (.ok sim) →
      (sim.run []).escaped = none → o.output = some path → pathSuffix path ≠ ".parquet" →
      (recorded (sim.run [])).csv = .error f → Escapes o text f

theorem refusesConfiguration_iff {f : Fault} :
    Fault.refusesConfiguration f = true ↔ ∃ m, f = .configuration m := by
  cases f <;> simp [Fault.refusesConfiguration]

theorem success_getD_iff {s : Option RunSummary} :
    (s.map RunSummary.success).getD false = true ↔ ∃ x, s = some x ∧ x.reason = .completed := by
  cases s with
  | none => simp
  | some x =>
    simp only [Option.map_some, Option.getD_some, RunSummary.success, Option.some.injEq,
      exists_eq_left']
    generalize x.reason = r
    cases r <;> decide

section Status

variable {text : String}

theorem status_le_two : status text ≤ 2 := by
  unfold status
  split
  · exact le_refl 2
  · split <;> omega
  · split <;> omega

theorem status_eq_two_iff : status text = 2 ↔ Refused text := by
  unfold status Refused
  rcases assemble text with _ | f | sim
  · simp
  · by_cases hf : Fault.refusesConfiguration f = true
    · simpa [hf] using refusesConfiguration_iff.1 hf
    · have : ∀ m, f ≠ .configuration m := fun m hm => hf (refusesConfiguration_iff.2 ⟨m, hm⟩)
      simp [hf, this]
  · dsimp only
    split <;> simp

theorem status_eq_zero_iff : status text = 0 ↔ Completes text := by
  unfold status Completes
  rcases assemble text with _ | f | sim
  · simp
  · dsimp only
    split <;> simp
  · simp only [Option.some.injEq, Except.ok.injEq, exists_eq_left']
    rw [← success_getD_iff]
    split <;> simp_all

theorem status_eq_one_iff : status text = 1 ↔ ¬ Refused text ∧ ¬ Completes text := by
  rw [← status_eq_two_iff, ← status_eq_zero_iff]
  have := @status_le_two text
  omega

end Status

section Run

variable {o : RunOptions} {text : String}

/-- A text that assembles into something is a JSON object, read and built. -/
theorem parse_of_assemble {r : Outcome Simulation} (h : assemble text = some r) :
    ∃ fields, Json.parse text = some (.obj fields) ∧
      RunConfig.ofJson (.obj fields) >>= Simulation.ofConfig = r := by
  unfold assemble at h
  split at h
  · rename_i fields hparse
    exact ⟨fields, hparse, Option.some.inj h⟩
  · cases h

theorem runWith_of_assemble_none (h : assemble text = none) :
    runWith o text = { exit := .returned 2 } := by
  unfold runWith
  split
  · rename_i fields hparse
    simp [assemble, hparse] at h
  · rfl

theorem runWith_of_assemble_error {f : Fault} (h : assemble text = some (.error f)) :
    runWith o text = if Fault.refusesConfiguration f then { exit := .returned 2 }
      else { exit := .returned 1, failure := some f } := by
  obtain ⟨fields, hparse, hbuilt⟩ := parse_of_assemble h
  unfold runWith
  rw [hparse]
  simp only [hbuilt]

theorem exit_runWith_of_assemble_ok {sim : Simulation} (h : assemble text = some (.ok sim)) :
    (runWith o text).exit =
      .returned (if ((sim.run []).summary.map RunSummary.success).getD false then 0 else 1) := by
  obtain ⟨fields, hparse, hbuilt⟩ := parse_of_assemble h
  unfold runWith
  rw [hparse]
  simp only [hbuilt]
  -- every way the command ends after the run keeps the status the summary gives
  repeat' split
  all_goals rfl

theorem failure_runWith_of_assemble_ok {sim : Simulation} {f : Fault}
    (h : assemble text = some (.ok sim)) :
    (runWith o text).failure = some f ↔ (sim.run []).escaped = some f ∨
      (sim.run []).escaped = none ∧ ∃ path, o.output = some path ∧
        pathSuffix path ≠ ".parquet" ∧ (recorded (sim.run [])).csv = .error f := by
  obtain ⟨fields, hparse, hbuilt⟩ := parse_of_assemble h
  unfold runWith
  rw [hparse]
  simp only [hbuilt, recorded]
  cases he : (sim.run []).escaped with
  | some g => simp
  | none =>
    cases hout : o.output with
    | none => simp
    | some path =>
      by_cases hp : pathSuffix path = ".parquet"
      · simp [hp]
      · cases (((sim.run []).observers.head?.bind Observer.ephemeris?).getD {}).csv <;> simp [hp]

theorem exit_runWith (o : RunOptions) (text : String) :
    (runWith o text).exit = .returned (status text) := by
  unfold status
  rcases h : assemble text with _ | f | sim
  · rw [runWith_of_assemble_none h]
  · rw [runWith_of_assemble_error h]
    dsimp only
    split <;> rfl
  · exact exit_runWith_of_assemble_ok h

theorem failure_runWith_iff {f : Fault} :
    (runWith o text).failure = some f ↔ Escapes o text f := by
  rcases h : assemble text with _ | g | sim
  · rw [runWith_of_assemble_none h]
    constructor
    · intro hf
      cases hf
    · rintro (⟨ha, -⟩ | ⟨ha, -⟩ | ⟨ha, -⟩) <;> simp [h] at ha
  · rw [runWith_of_assemble_error h]
    constructor
    · intro hf
      split at hf
      · cases hf
      · next hr =>
        cases hf
        exact .build h (by simpa using hr)
    · rintro (⟨ha, hr⟩ | ⟨ha, -⟩ | ⟨ha, -⟩)
      · rw [h] at ha
        cases ha
        simp [hr]
      · simp [h] at ha
      · simp [h] at ha
  · rw [failure_runWith_of_assemble_ok h]
    constructor
    · rintro (he | ⟨he, path, ho, hp, hc⟩)
      · exact .run h he
      · exact .write h he ho hp hc
    · rintro (⟨ha, -⟩ | ⟨ha, he⟩ | ⟨ha, he, ho, hp, hc⟩)
      · simp [h] at ha
      · rw [h] at ha
        cases ha
        exact .inl he
      · rw [h] at ha
        cases ha
        exact .inr ⟨he, _, ho, hp, hc⟩

/-- A description that cannot be built returns 2 when its fault is a configuration fault and
1 for any other kind of fault. -/
theorem exit_of_build_fault {f : Fault} (h : assemble text = some (.error f)) :
    ((runWith o text).exit = .returned 2 ↔ ∃ m, f = .configuration m) ∧
      ((runWith o text).exit = .returned 1 ↔ ∀ m, f ≠ .configuration m) := by
  rw [runWith_of_assemble_error h]
  cases f <;> simp [Fault.refusesConfiguration]

/-- A built simulation returns 0 when its run's summary gives the reason `completed`, and 1
when the run stops early: its summary gives any other reason, or the run reports nothing. -/
theorem exit_of_built {sim : Simulation} (h : assemble text = some (.ok sim)) :
    ((runWith o text).exit = .returned 0 ↔ ∃ s ∈ (sim.run []).summary, s.reason = .completed) ∧
      ((runWith o text).exit = .returned 1 ↔ ∀ s ∈ (sim.run []).summary,
        s.reason ∈ [.diverged, .domainError, .cancelled, .failed]) := by
  rw [exit_runWith_of_assemble_ok h]
  rcases (sim.run []).summary with _ | s
  · simp
  -- what is left compares the reason with completed
  · cases hr : s.reason <;> simp [RunSummary.success, hr] <;> rfl

end Run

/-- The run command returns 2 exactly for a refused configuration and 0 exactly for a run
that completes, 1 otherwise; a fault escapes it exactly in the three ways `Escapes` lists.
Read off the parts of the command: a description that cannot be built returns 2 or 1 as its
fault is a configuration fault or not, and a built simulation returns 0 when its summary's
reason is `completed` and 1 when the run stops early for any other reason. -/
theorem exit_contract (o : RunOptions) (text : String) :
    ((runWith o text).exit = .returned 2 ↔ Refused text) ∧
    ((runWith o text).exit = .returned 0 ↔ Completes text) ∧
    ((runWith o text).exit = .returned 1 ↔ ¬ Refused text ∧ ¬ Completes text) ∧
    (∀ f, (runWith o text).failure = some f ↔ Escapes o text f) ∧
    (∀ f, assemble text = some (.error f) →
      ((runWith o text).exit = .returned 2 ↔ ∃ m, f = .configuration m) ∧
      ((runWith o text).exit = .returned 1 ↔ ∀ m, f ≠ .configuration m)) ∧
    (∀ sim, assemble text = some (.ok sim) →
      ((runWith o text).exit = .returned 0 ↔ ∃ s ∈ (sim.run []).summary, s.reason = .completed) ∧
      ((runWith o text).exit = .returned 1 ↔ ∀ s ∈ (sim.run []).summary,
        s.reason ∈ [.diverged, .domainError, .cancelled, .failed])) := by
  refine ⟨?_, ?_, ?_, fun _ => failure_runWith_iff, fun _ => exit_of_build_fault,
    fun _ => exit_of_built⟩
  all_goals simp only [exit_runWith, Exit.returned.injEq]
  exacts [status_eq_two_iff, status_eq_zero_iff, status_eq_one_iff]

/-- A one-second run with a random disturbance seeded by -1. -/
def negativeSeedRun : String :=
  "\x7b\"duration\": 1.0, \"torques\": \x7b\"random_disturbance\": 1e-9, \"seed\": -1\x7d\x7d"

theorem negativeSeedRun_fault :
    (match Json.parse negativeSeedRun with
      | some (.obj fields) =>
        match RunConfig.ofJson (.obj fields) with
        | .ok c =>
          match Simulation.ofConfig c with
          | .error f =>
            f.message == "expected non-negative integer" && !Fault.refusesConfiguration f
          | .ok _ => false
        | .error _ => false
      | _ => false) = true := by
  decide +kernel

/-- A run with a random disturbance seeded by -1 is read and validated, but its disturbance
refuses the seed while the simulation is built: the command, asked for no output, returns 1
and the fault escapes it. -/
theorem negative_seed_escapes :
    ∃ c f, (∃ fields, Json.parse negativeSeedRun = some (.obj fields) ∧
        RunConfig.ofJson (.obj fields) = .ok c) ∧
      Simulation.ofConfig c = .error f ∧ f.message = "expected non-negative integer" ∧
      (runWith { config := "config.json" } negativeSeedRun).exit = .returned 1 ∧
      (runWith { config := "config.json" } negativeSeedRun).failure = some f := by
  have hrun := negativeSeedRun_fault
  split at hrun
  · rename_i fields hparse
    split at hrun
    · rename_i c hread
      split at hrun
      · rename_i f hbuild
        simp only [Bool.and_eq_true, beq_iff_eq, Bool.not_eq_eq_eq_not, Bool.not_true] at hrun
        obtain ⟨hmsg, hkind⟩ := hrun
        have ha : assemble negativeSeedRun = some (.error f) := by
          unfold assemble
          rw [hparse]
          simp only [hread]
          exact congrArg some hbuild
        rw [runWith_of_assemble_error ha, hkind]
        exact ⟨c, f, ⟨fields, hparse, hread⟩, hbuild, hmsg, rfl, rfl⟩
      · cases hrun
    · cases hrun
  · cases hrun

end CommandLine

end Spacecraft
