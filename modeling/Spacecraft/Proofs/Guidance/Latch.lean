import Mathlib
import Spacecraft.Control.Law

/-!
# Latching commanded guidance

Commanded guidance is driven from two sides. Operators command a new target whenever they
like; the propagator advances the guidance after every accepted step and sets up its memory
afresh when a run starts. Every call is atomic, so all the guidance ever sees is a sequence of
such calls (`Guidance.Event`), and the guidance together with the memory of the current run
(`Latch`) moves by one step per call (`Latch.step`). A call that fails changes nothing.

A commanded target only waits: the next advance latches it. A command overwrites the one
waiting before it and the start of a run leaves the waiting command alone, so the advance
that ends a burst of commands latches the last of them and leaves nothing waiting
(`run_burst_advance`, `waiting_run_advance`). Once a command is latched the memory stays
overridden, and its command changes only at an advance that found a command waiting
(`overridden_run`); before that every advance holds the attitude of the state it was given,
at that state's time (`step_advance_not_overridden`), and the memory is the hold of the last
advance's state (`memory_run_unlatched`). The target is read off the memory
alone: a waiting command is never seen (`target_eq`).
-/

namespace Spacecraft

namespace Guidance

/-- A call made on commanded guidance: a target commanded from outside, the advance after an
accepted step ending at `t` in `s`, or the start of a run at `s`. -/
inductive Event where
  | command (attitude rates : List Float)
  | advance (t : Float) (s : SatState)
  | start (s : SatState)

namespace Event

/-- The command an event issues: a command of a target that makes a command. -/
def issued : Event → Option Command
  | .command attitude rates => (Command.make attitude rates).toOption
  | _ => none

/-- Whether an event is an advance. -/
def isAdvance : Event → Bool
  | .advance .. => true
  | _ => false

/-- Whether an event starts a run. -/
def isStart : Event → Bool
  | .start _ => true
  | _ => false

end Event

/-- The command waiting in commanded guidance; automatic pointing has none. -/
def pending : Guidance → Option Command
  | .commanded p => p
  | .automatic .. => none

/-- The command issued last among some events, if any was. -/
def lastIssued (events : List Event) : Option Command := events.reverse.findSome? Event.issued

theorem lastIssued_cons (e : Event) (events : List Event) :
    lastIssued (e :: events) = (lastIssued events).or e.issued := by
  simp only [lastIssued, List.reverse_cons, List.findSome?_append, List.findSome?_singleton]

end Guidance

open Guidance

/-- Commanded guidance between two calls: the command waiting to be latched and the memory of
the current run. -/
structure Latch where
  waiting : Option Command
  memory : GuidanceMemory

namespace Latch

/-- The guidance itself. -/
def guidance (x : Latch) : Guidance := .commanded x.waiting

/-- One call. A call that fails leaves everything as it was: a command whose target makes no
command never reaches the waiting slot, and an advance or a start that cannot hold the attitude
of its state keeps the memory it was given. -/
def step (x : Latch) : Event → Latch
  | .command attitude rates =>
    match x.guidance.command attitude rates with
    | .ok g => { x with waiting := g.pending }
    | .error _ => x
  | .advance t s =>
    match x.guidance.advance t s x.memory with
    | .ok (m, g) => ⟨g.pending, m⟩
    | .error _ => x
  | .start s =>
    match x.guidance.initialMemory (some s) with
    | .ok m => { x with memory := m }
    | .error _ => x

/-- The calls of a sequence, one after another. -/
def run (x : Latch) (events : List Event) : Latch := events.foldl step x

@[simp] theorem run_nil (x : Latch) : x.run [] = x := rfl

@[simp] theorem run_cons (x : Latch) (e : Event) (events : List Event) :
    x.run (e :: events) = (x.step e).run events := rfl

@[simp] theorem run_append (x : Latch) (events events' : List Event) :
    x.run (events ++ events') = (x.run events).run events' := List.foldl_append

/-! ## One call -/

/-- A command issued replaces the waiting one; the memory is not touched. -/
theorem step_command (x : Latch) (attitude rates : List Float) :
    x.step (.command attitude rates) =
      match Command.make attitude rates with
      | .ok c => { x with waiting := some c }
      | .error _ => x := by
  simp only [step, guidance, Guidance.command]
  cases Command.make attitude rates <;> rfl

/-- An advance latches the waiting command, if any; without one it keeps an overridden
command, or else holds the attitude of the state. Nothing is left waiting. -/
theorem step_advance (x : Latch) (t : Float) (s : SatState) :
    x.step (.advance t s) =
      match x.waiting with
      | some c => ⟨none, { time := t, command := some c, overridden := true }⟩
      | none =>
        if x.memory.overridden then
          ⟨none, { time := t, command := x.memory.command, overridden := true }⟩
        else
          match Command.hold s.quaternion.toList with
          | .ok c => ⟨none, { time := t, command := some c }⟩
          | .error _ => x := by
  obtain ⟨_ | c, m⟩ := x
  · by_cases ho : m.overridden
    · simp only [step, guidance, Guidance.advance, ho, if_true]
      rfl
    · simp only [step, guidance, Guidance.advance, ho, Bool.false_eq_true, if_false]
      cases Command.hold s.quaternion.toList <;> rfl
  · rfl

/-- The start of a run holds the attitude of its state; the waiting command stays. -/
theorem step_start (x : Latch) (s : SatState) :
    x.step (.start s) =
      match Command.hold s.quaternion.toList with
      | .ok c => { x with memory := { time := s.time, command := some c } }
      | .error _ => x := by
  simp only [step, guidance, Guidance.initialMemory]
  cases Command.hold s.quaternion.toList <;> rfl

/-- Nothing waits after an advance. -/
@[simp] theorem waiting_step_advance (x : Latch) (t : Float) (s : SatState) :
    (x.step (.advance t s)).waiting = none := by
  rw [step_advance]
  rcases x with ⟨_ | c, m⟩
  · dsimp only
    split
    · rfl
    · split
      · rfl
      · rfl
  · rfl

/-- Any other call puts the command it issues, if any, in the waiting slot. -/
theorem waiting_step_of_not_advance (x : Latch) {e : Event} (he : e.isAdvance = false) :
    (x.step e).waiting = e.issued.or x.waiting := by
  cases e with
  | command attitude rates =>
    rw [step_command]
    simp only [Event.issued]
    cases Command.make attitude rates <;> rfl
  | advance t s => cases he
  | start s =>
    rw [step_start]
    cases Command.hold s.quaternion.toList <;> rfl

/-! ## Sequences of calls -/

/-- Between two advances the last command issued is the one waiting, or the one that waited
before if none was issued. -/
theorem waiting_run_of_no_advance (x : Latch) {events : List Event}
    (h : ∀ e ∈ events, e.isAdvance = false) :
    (x.run events).waiting = (lastIssued events).or x.waiting := by
  induction events generalizing x with
  | nil => rfl
  | cons e events ih =>
    have he := h e List.mem_cons_self
    rw [run_cons, ih (x.step e) fun e' he' => h e' (List.mem_cons_of_mem e he'),
      waiting_step_of_not_advance x he, lastIssued_cons, Option.or_assoc]

/-- Calls that issue no command leave nothing waiting where nothing waited. -/
theorem waiting_run_of_none_issued {x : Latch} (hx : x.waiting = none) {events : List Event}
    (h : ∀ e ∈ events, e.issued = none) : (x.run events).waiting = none := by
  induction events generalizing x with
  | nil => exact hx
  | cons e events ih =>
    refine ih ?_ fun e' he' => h e' (List.mem_cons_of_mem e he')
    cases hadv : e.isAdvance with
    | true =>
      cases e with
      | advance t s => exact waiting_step_advance x t s
      | _ => cases hadv
    | false => rw [waiting_step_of_not_advance x hadv, h e List.mem_cons_self, hx]; rfl

/-- After an advance nothing waits until a command is issued, so no command is latched twice. -/
theorem waiting_run_advance (x : Latch) (before : List Event) (t : Float) (s : SatState)
    {after : List Event} (h : ∀ e ∈ after, e.issued = none) :
    (x.run (before ++ .advance t s :: after)).waiting = none := by
  rw [run_append, run_cons]
  exact waiting_run_of_none_issued (waiting_step_advance _ t s) h

/-- The advance that ends a burst of commands and run starts latches the command issued last
and leaves nothing waiting: a later command overwrites an earlier one, and one waiting when a
run ends is latched by the first advance of the next run. -/
theorem run_burst_advance (x : Latch) (before : List Event) {attitude rates : List Float}
    {c : Command} (hc : Command.make attitude rates = .ok c) {burst : List Event}
    (hburst : ∀ e ∈ burst, e.isAdvance = false) (t : Float) (s : SatState) :
    x.run (before ++ .command attitude rates :: burst ++ [.advance t s]) =
      ⟨none, { time := t, command := some ((lastIssued burst).getD c), overridden := true }⟩ := by
  have hwait : (x.run (before ++ .command attitude rates :: burst)).waiting =
      some ((lastIssued burst).getD c) := by
    rw [run_append, run_cons, waiting_run_of_no_advance _ hburst, step_command, hc]
    cases lastIssued burst <;> rfl
  rw [run_append, run_cons, run_nil, step_advance, hwait]

/-! ## The memory of a run -/

/-- Once overridden, a call other than the start of a run keeps the memory overridden, and
changes its command only when it is an advance that found a command waiting. -/
theorem step_overridden {x : Latch} (hx : x.memory.overridden = true) {e : Event}
    (he : e.isStart = false) :
    (x.step e).memory.overridden = true ∧
      ((x.step e).memory.command = x.memory.command ∨
        (e.isAdvance = true ∧ x.waiting.isSome = true)) := by
  cases e with
  | command attitude rates =>
    rw [step_command]
    cases Command.make attitude rates <;> exact ⟨hx, .inl rfl⟩
  | advance t s =>
    rw [step_advance]
    rcases hw : x.waiting with _ | c
    · simp only [hx, if_true]
      exact ⟨trivial, .inl trivial⟩
    · exact ⟨rfl, .inr ⟨rfl, rfl⟩⟩
  | start s => cases he

/-- Within a run, an overridden memory stays overridden, and its command changes only at an
advance that found a command waiting. -/
theorem overridden_run {x : Latch} (hx : x.memory.overridden = true) {events : List Event}
    (h : ∀ e ∈ events, e.isStart = false) :
    (x.run events).memory.overridden = true ∧
      ((x.run events).memory.command = x.memory.command ∨
        ∃ before t s after, events = before ++ .advance t s :: after ∧
          (x.run before).waiting.isSome = true) := by
  induction events generalizing x with
  | nil => exact ⟨hx, .inl rfl⟩
  | cons e events ih =>
    -- one call, then the rest of the run from where that call left the memory
    obtain ⟨hstep, hcmd⟩ := step_overridden hx (h e List.mem_cons_self)
    obtain ⟨hrun, hrest⟩ := ih hstep fun e' he' => h e' (List.mem_cons_of_mem e he')
    refine ⟨hrun, ?_⟩
    rcases hrest with hsame | ⟨before, t, s, after, rfl, hw⟩
    · rcases hcmd with hcmd | ⟨hadv, hw⟩
      · exact .inl (hsame.trans hcmd)
      · cases e with
        | advance t s => exact .inr ⟨[], t, s, _, rfl, hw⟩
        | _ => cases hadv
    · exact .inr ⟨e :: before, t, s, after, rfl, hw⟩

/-- An advance that leaves the memory not overridden found nothing waiting, and holds the
attitude of the state it was given at that state's time; one whose attitude cannot be held
changes nothing. -/
theorem step_advance_not_overridden (x : Latch) (t : Float) (s : SatState)
    (h : (x.step (.advance t s)).memory.overridden = false) :
    x.waiting = none ∧
      ((∃ c, Command.hold s.quaternion.toList = .ok c ∧
          (x.step (.advance t s)).memory = { time := t, command := some c }) ∨
        (∃ f, Command.hold s.quaternion.toList = .error f ∧ x.step (.advance t s) = x)) := by
  rw [step_advance] at h ⊢
  rcases hw : x.waiting with _ | c
  · rw [hw] at h
    refine ⟨rfl, ?_⟩
    by_cases ho : x.memory.overridden
    · simp only [ho, if_true] at h
      cases h
    · simp only [ho, Bool.false_eq_true, if_false] at h ⊢
      rcases hc : Command.hold s.quaternion.toList with f | c
      · exact .inr ⟨f, rfl, rfl⟩
      · exact .inl ⟨c, rfl, rfl⟩
  · rw [hw] at h
    cases h

/-- With nothing waiting and the memory not overridden, a call that issues no command leaves
nothing waiting and the memory not overridden: nothing is latched. -/
theorem step_unlatched {x : Latch} (hx : x.waiting = none) (ho : x.memory.overridden = false)
    {e : Event} (he : e.issued = none) :
    (x.step e).waiting = none ∧ (x.step e).memory.overridden = false := by
  cases e with
  | command attitude rates =>
    rw [step_command]
    rcases hc : Command.make attitude rates with f | c
    · exact ⟨hx, ho⟩
    · simp only [Event.issued, hc] at he
      cases he
  | advance t s =>
    rw [step_advance, hx]
    simp only [ho, Bool.false_eq_true, if_false]
    rcases Command.hold s.quaternion.toList with f | c
    · exact ⟨hx, ho⟩
    · exact ⟨rfl, rfl⟩
  | start s =>
    rw [step_start]
    rcases Command.hold s.quaternion.toList with f | c
    · exact ⟨hx, ho⟩
    · exact ⟨hx, rfl⟩

/-- Calls that issue no command latch nothing where nothing waits and nothing is overridden. -/
theorem run_unlatched {x : Latch} (hx : x.waiting = none) (ho : x.memory.overridden = false)
    {events : List Event} (h : ∀ e ∈ events, e.issued = none) :
    (x.run events).waiting = none ∧ (x.run events).memory.overridden = false := by
  induction events generalizing x with
  | nil => exact ⟨hx, ho⟩
  | cons e events ih =>
    obtain ⟨hx', ho'⟩ := step_unlatched hx ho (h e List.mem_cons_self)
    exact ih hx' ho' fun e' he' => h e' (List.mem_cons_of_mem e he')

/-- A command whose target makes no command changes nothing. -/
theorem step_of_none_issued {x : Latch} {e : Event} (hadv : e.isAdvance = false)
    (hstart : e.isStart = false) (he : e.issued = none) : x.step e = x := by
  cases e with
  | command attitude rates =>
    rw [step_command]
    rcases hc : Command.make attitude rates with f | c
    · rfl
    · simp only [Event.issued, hc] at he
      cases he
  | advance t s => cases hadv
  | start s => cases hstart

theorem run_of_none_issued {x : Latch} {events : List Event}
    (h : ∀ e ∈ events, e.isAdvance = false ∧ e.isStart = false ∧ e.issued = none) :
    x.run events = x := by
  induction events generalizing x with
  | nil => rfl
  | cons e events ih =>
    obtain ⟨hadv, hstart, he⟩ := h e List.mem_cons_self
    rw [run_cons, step_of_none_issued hadv hstart he]
    exact ih fun e' he' => h e' (List.mem_cons_of_mem e he')

/-- Until a command is latched, the memory after an advance holds the attitude of that
advance's state, at its time, up to the next advance or start. -/
theorem memory_run_unlatched {x : Latch} (hx : x.waiting = none)
    (ho : x.memory.overridden = false) {before after : List Event} {t : Float} {s : SatState}
    {c : Command} (h : ∀ e ∈ before ++ .advance t s :: after, e.issued = none)
    (hafter : ∀ e ∈ after, e.isAdvance = false ∧ e.isStart = false)
    (hc : Command.hold s.quaternion.toList = .ok c) :
    (x.run (before ++ .advance t s :: after)).memory = { time := t, command := some c } := by
  obtain ⟨hw, hov⟩ := run_unlatched hx ho fun e he => h e (List.mem_append_left _ he)
  have hrest : ∀ e ∈ after, e.isAdvance = false ∧ e.isStart = false ∧ e.issued = none :=
    fun e he => ⟨(hafter e he).1, (hafter e he).2, h e (by simp [he])⟩
  rw [run_append, run_cons, run_of_none_issued hrest, step_advance, hw]
  simp only [hov, Bool.false_eq_true, if_false, hc]

/-- The target is the command the memory holds, or the hold of the state's attitude when it
holds none: a command waiting to be latched plays no part. -/
theorem target_eq (x : Latch) (t : Float) (s : SatState) :
    x.guidance.target t s x.memory =
      match x.memory.command with
      | some c => .ok c
      | none => Command.hold s.quaternion.toList := by
  simp only [guidance, Guidance.target]
  cases x.memory.command <;> rfl

/-! ## The protocol -/

/-- Commanded guidance under any interleaving of commands, advances and run starts: the
advance that ends a burst of commands latches the burst's last command and leaves nothing
waiting, and nothing waits again until a new command is issued; within a run a memory once
overridden stays so and changes its command only at an advance that found one waiting; an
advance that leaves the memory not overridden holds the attitude of its state at its time, and
until a command is latched the memory is that hold of the last advance's state; and the target
is read off the memory alone. -/
theorem latching_protocol :
    (∀ (x : Latch) (before burst : List Event) (attitude rates : List Float) (c : Command)
        (t : Float) (s : SatState),
      Command.make attitude rates = .ok c → (∀ e ∈ burst, e.isAdvance = false) →
      x.run (before ++ .command attitude rates :: burst ++ [.advance t s]) =
        ⟨none, { time := t, command := some ((lastIssued burst).getD c), overridden := true }⟩) ∧
    (∀ (x : Latch) (before after : List Event) (t : Float) (s : SatState),
      (∀ e ∈ after, e.issued = none) → (x.run (before ++ .advance t s :: after)).waiting = none) ∧
    (∀ (x : Latch) (events : List Event), x.memory.overridden = true →
      (∀ e ∈ events, e.isStart = false) →
      (x.run events).memory.overridden = true ∧
        ((x.run events).memory.command = x.memory.command ∨
          ∃ before t s after, events = before ++ .advance t s :: after ∧
            (x.run before).waiting.isSome = true)) ∧
    (∀ (x : Latch) (before : List Event) (t : Float) (s : SatState),
      (x.run (before ++ [.advance t s])).memory.overridden = false →
      (x.run before).waiting = none ∧
        ((∃ c, Command.hold s.quaternion.toList = .ok c ∧
            (x.run (before ++ [.advance t s])).memory = { time := t, command := some c }) ∨
          (∃ f, Command.hold s.quaternion.toList = .error f ∧
            x.run (before ++ [.advance t s]) = x.run before))) ∧
    (∀ (x : Latch) (before after : List Event) (t : Float) (s : SatState) (c : Command),
      x.waiting = none → x.memory.overridden = false →
      (∀ e ∈ before ++ .advance t s :: after, e.issued = none) →
      (∀ e ∈ after, e.isAdvance = false ∧ e.isStart = false) →
      Command.hold s.quaternion.toList = .ok c →
      (x.run (before ++ .advance t s :: after)).memory = { time := t, command := some c }) ∧
    (∀ (x : Latch) (t : Float) (s : SatState),
      x.guidance.target t s x.memory =
        match x.memory.command with
        | some c => .ok c
        | none => Command.hold s.quaternion.toList) := by
  refine ⟨fun x before burst _ _ _ t s hc hburst => run_burst_advance x before hc hburst t s,
    fun x before _ t s h => waiting_run_advance x before t s h,
    fun _ _ hx h => overridden_run hx h, fun x before t s h => ?_,
    fun _ _ _ _ _ _ hx ho h hafter hc => memory_run_unlatched hx ho h hafter hc, target_eq⟩
  rw [run_append, run_cons, run_nil] at h ⊢
  exact step_advance_not_overridden _ t s h

theorem normList_identity_ge : ¬ (normList [1.0, 0.0, 0.0, 0.0] < 1e-12) := by decide +kernel

/-- A command, the start of a new run and a second command: the first advance of the new
run latches the second command. -/
theorem later_command_latched :
    Command.make [1.0, 0.0, 0.0, 0.0] [0.0, 0.0, 0.0] =
        .ok ⟨[1.0, 0.0, 0.0, 0.0].map (· / normList [1.0, 0.0, 0.0, 0.0]), ⟨0.0, 0.0, 0.0⟩⟩ ∧
      (∀ e ∈ [Event.start default, .command [0.0, 1.0, 0.0, 0.0] [0.0, 0.0, 0.0]],
        e.isAdvance = false) ∧
      (⟨none, {}⟩ : Latch).run ([] ++ .command [1.0, 0.0, 0.0, 0.0] [0.0, 0.0, 0.0] ::
          [.start default, .command [0.0, 1.0, 0.0, 0.0] [0.0, 0.0, 0.0]] ++
          [.advance 1.0 default]) =
        ⟨none,
          { time := 1.0, overridden := true,
            command := some ((lastIssued [.start default,
              .command [0.0, 1.0, 0.0, 0.0] [0.0, 0.0, 0.0]]).getD
                ⟨[1.0, 0.0, 0.0, 0.0].map (· / normList [1.0, 0.0, 0.0, 0.0]),
                  ⟨0.0, 0.0, 0.0⟩⟩) }⟩ := by
  have hc : Command.make [1.0, 0.0, 0.0, 0.0] [0.0, 0.0, 0.0] =
      .ok ⟨[1.0, 0.0, 0.0, 0.0].map (· / normList [1.0, 0.0, 0.0, 0.0]), ⟨0.0, 0.0, 0.0⟩⟩ := by
    simp only [Command.make, Quat.normalizeList, normList_identity_ge, if_false, Vec3.ofList?]
    rfl
  have hb : ∀ e ∈ [Event.start default, .command [0.0, 1.0, 0.0, 0.0] [0.0, 0.0, 0.0]],
      e.isAdvance = false := by
    simp [Event.isAdvance]
  exact ⟨hc, hb, latching_protocol.1 _ [] _ _ _ _ 1.0 default hc hb⟩

end Latch

end Spacecraft
