import Mathlib
import Spacecraft.Propagation.Propagator

/-!
# The passes of a run

The loop of a run checks three things at each step boundary (`Propagator.halt`): that the
end time is not reached, that no stop was asked for, and that the step limit is not reached.
It then takes one step (`Propagator.advanceOnce`), and ends if the step raised a fault, an
interrupt arrives once the observers were told of the state, or the consumer stops listening
(`Propagator.after`). This module restates the loop in these
terms (`loop_succ`) and records what happens in it as a list of passes, one for each step it
takes (`Propagator.passes`).

A step from a progress `g` ends in one of four ways (`StepsTo`): its trials fail, the state
they reach cannot be rebuilt or fails its checks, the dynamics refuse to move on, or the state
is accepted and the observers are told. Every property of a run below is proved from this
description of one step, carried along the passes by induction.
-/

namespace Spacecraft

namespace Propagator

variable (p : Propagator) (tEnd : Float) (listen : Option Nat) (interrupt : Option Interrupt)

/-- The step size a step from `g` tries first: the suggested step, cut to what is left of the
run. -/
def firstTrial (g : Progress) : Float :=
  if tEnd - g.state.time < g.step then tEnd - g.state.time else g.step

/-- The time a step of `h` from `t` ends at: the end time itself when it is within `10⁻⁶ h`. -/
def landing (t h : Float) : Float :=
  if tEnd - (t + h) ≤ 1.0e-6 * h then tEnd else t + h

/-- The trials of a step from `g`, all with the rate function its control memory fixes and
from its state. -/
def trials (g : Progress) : Outcome (StepOutcome × Float × Nat) :=
  p.attemptHalving (rate g.dynamics g.state.inertia g.control) g.state.time g.state.toArray
    (p.limits.maxRejections.toNat + 1) (firstTrial tEnd g) 0

/-- The state an outcome of a trial from `g` rebuilds, checked. -/
def rebuild (g : Progress) (o : StepOutcome) (h : Float) : Outcome SatState := do
  let s ← SatState.ofFlat o.state g.state.inertia (landing tEnd g.state.time h)
  p.checkState s
  pure s

/-- The fault of the step limit, at the time of `g`. -/
def stepLimitFault (g : Progress) : Fault :=
  .divergence ("Step limit of " ++ toString p.limits.maxSteps ++ " reached") (some g.state.time)

/-- Where a run stops at a step boundary: at the end time, when asked to, or at the step
limit. -/
def halt (g : Progress) : Option Ending :=
  if !(g.state.time < tEnd) then some { progress := g, reason := .completed }
  else if g.stopRequested then some { progress := g, reason := .cancelled }
  else if (g.steps : Int) ≥ p.limits.maxSteps then
    some { progress := g, reason := .diverged, error := some (p.stepLimitFault g) }
  else none

/-- Where a run stops after a step: on the fault it raised, on an interrupt that arrives once
the observers were told of the state, or when the consumer stops listening. -/
def after (g : Progress) : Option Fault → Option Ending
  | some e => some { progress := g, reason := Termination.ofFault e, error := some e }
  | none =>
    if interrupt == some (.told g.steps) then
      some { progress := g, reason := .completed, interrupted := true }
    else if listen == some g.steps then
      some { progress := g, reason := .cancelled, abandoned := true }
    else none

theorem halt_progress {g : Progress} {e : Ending} (h : p.halt tEnd g = some e) :
    e.progress = g := by
  simp only [halt] at h
  split_ifs at h <;> (injection h with h; rw [← h])

theorem after_progress {g : Progress} {f : Option Fault} {e : Ending}
    (h : after listen interrupt g f = some e) : e.progress = g := by
  cases f with
  | some e' => injection h with h; rw [← h]
  | none =>
    simp only [after] at h
    split_ifs at h <;> (injection h with h; rw [← h])

theorem loop_zero (g : Progress) :
    p.loop tEnd listen interrupt 0 g = { progress := g, reason := .completed } := rfl

/-- One pass of the loop: the boundary, a step, and what follows it. -/
theorem loop_succ (fuel : Nat) (g : Progress) :
    p.loop tEnd listen interrupt (fuel + 1) g =
      match p.halt tEnd g with
      | some e => e
      | none =>
        match after listen interrupt (p.advanceOnce tEnd g).1 (p.advanceOnce tEnd g).2 with
        | some e => e
        | none => p.loop tEnd listen interrupt fuel (p.advanceOnce tEnd g).1 := by
  rw [loop, halt]
  split_ifs <;> try rfl
  rcases hr : p.advanceOnce tEnd g with ⟨g', _ | e⟩
  · simp only [after]
    split_ifs <;> rfl
  · rfl

/-- The calls of telling the observers of the state `s`: each in turn, up to the first that
fails, as the last one when `s` is not before the end time. -/
def noticeCalls (s : SatState) (observers : List Observer) : List Call :=
  roundCalls (.notice · (s.time ≥ tEnd)) (fun o => !(o.notice s (s.time ≥ tEnd)).isOk) 0 observers

/-- How one step from `g` ends: the progress it leaves and the fault it raises, if any. -/
inductive StepsTo (g : Progress) : Progress → Option Fault → Prop
  /-- Every trial failed: nothing moves. -/
  | retryFault {e : Fault} : p.trials tEnd g = .error e → StepsTo g g (some e)
  /-- A trial was taken but its state is refused: only the refusals are counted. -/
  | rebuildFault {o : StepOutcome} {h : Float} {k : Nat} {e : Fault} :
      p.trials tEnd g = .ok (o, h, k) → p.rebuild tEnd g o h = .error e →
      StepsTo g { g with rejected := g.rejected + k } (some e)
  /-- The state is accepted but the dynamics refuse to move on: they keep what they drew. -/
  | advanceFault {o : StepOutcome} {h : Float} {k : Nat} {s : SatState} {e : Fault}
      {d : DynamicsModel} :
      p.trials tEnd g = .ok (o, h, k) → p.rebuild tEnd g o h = .ok s →
      Tracked.runFrom (DynamicsModel.advance (landing tEnd g.state.time h) s g.control)
        g.dynamics = (.error e, d) →
      StepsTo g { g with rejected := g.rejected + k, dynamics := d } (some e)
  /-- The state is accepted, the dynamics move on and the observers are told. -/
  | accepted {o : StepOutcome} {h : Float} {k : Nat} {s : SatState} {c : Option LawState}
      {d : DynamicsModel} {obs : List Observer} {stop : Bool} {fault : Option Fault} :
      p.trials tEnd g = .ok (o, h, k) → p.rebuild tEnd g o h = .ok s →
      Tracked.runFrom (DynamicsModel.advance (landing tEnd g.state.time h) s g.control)
        g.dynamics = (.ok c, d) →
      noticeEach s (s.time ≥ tEnd) [] g.observers g.stopRequested = (obs, stop, fault) →
      StepsTo g
        { g with
          rejected := g.rejected + k, dynamics := d, state := s, control := c,
          steps := g.steps + 1, step := o.nextStep, observers := obs, stopRequested := stop,
          calls := g.calls ++ noticeCalls tEnd s g.observers }
        fault

/-- Every step of the model ends in one of the four ways of `StepsTo`. -/
theorem stepsTo_advanceOnce (g : Progress) :
    StepsTo p tEnd g (p.advanceOnce tEnd g).1 (p.advanceOnce tEnd g).2 := by
  have hdef : p.trials tEnd g = p.attemptHalving (rate g.dynamics g.state.inertia g.control)
      g.state.time g.state.toArray (p.limits.maxRejections.toNat + 1) (firstTrial tEnd g) 0 := rfl
  unfold advanceOnce
  simp only [firstTrial] at hdef
  dsimp only
  rw [← hdef]
  rcases ht : p.trials tEnd g with e | ⟨o, h, k⟩
  · exact .retryFault ht
  dsimp only
  rw [show (if tEnd - (g.state.time + h) ≤ 1.0e-6 * h then tEnd else g.state.time + h) =
    landing tEnd g.state.time h from rfl]
  rcases hf : SatState.ofFlat o.state g.state.inertia (landing tEnd g.state.time h) with e | s
  · exact .rebuildFault ht (by rw [rebuild, hf]; rfl)
  dsimp only
  rcases hc : p.checkState s with e | _
  · exact .rebuildFault ht (by
      rw [rebuild, hf]; show (fun _ => s) <$> p.checkState s = _; rw [hc]; rfl)
  have hr : p.rebuild tEnd g o h = .ok s := by
    rw [rebuild, hf]; show (fun _ => s) <$> p.checkState s = _; rw [hc]; rfl
  dsimp only
  rcases ha : Tracked.runFrom (DynamicsModel.advance (landing tEnd g.state.time h) s g.control)
    g.dynamics with ⟨_ | c, d⟩
  all_goals dsimp only
  · exact .advanceFault ht hr ha
  · exact .accepted ht hr ha rfl

/-- One step of a run: where it starts, the progress it leaves and the fault it raises. -/
structure Pass where
  before : Progress
  after : Progress
  fault : Option Fault

/-- A pass accepts a state exactly when it counts a step. -/
def Pass.Accepted (q : Pass) : Prop := q.after.steps = q.before.steps + 1

instance : DecidablePred Pass.Accepted := fun q =>
  inferInstanceAs (Decidable (q.after.steps = q.before.steps + 1))

/-- The state a pass accepts, if it accepts one. -/
def Pass.acceptedState (q : Pass) : Option SatState := if q.Accepted then some q.after.state else none

/-- The passes of a run from `g`, one for each step it takes, in order. -/
def passes : Nat → Progress → List Pass
  | 0, _ => []
  | fuel + 1, g =>
    match p.halt tEnd g with
    | some _ => []
    | none =>
      ⟨g, (p.advanceOnce tEnd g).1, (p.advanceOnce tEnd g).2⟩ ::
        match after listen interrupt (p.advanceOnce tEnd g).1 (p.advanceOnce tEnd g).2 with
        | some _ => []
        | none => passes fuel (p.advanceOnce tEnd g).1

theorem passes_succ (fuel : Nat) (g : Progress) :
    p.passes tEnd listen interrupt (fuel + 1) g =
      match p.halt tEnd g with
      | some _ => []
      | none =>
        ⟨g, (p.advanceOnce tEnd g).1, (p.advanceOnce tEnd g).2⟩ ::
          match after listen interrupt (p.advanceOnce tEnd g).1 (p.advanceOnce tEnd g).2 with
          | some _ => []
          | none => p.passes tEnd listen interrupt fuel (p.advanceOnce tEnd g).1 := rfl

/-- Every pass of a run starts at a boundary the run does not stop at, and is one step. -/
theorem mem_passes {fuel : Nat} {g : Progress} {q : Pass} (h : q ∈ p.passes tEnd listen interrupt fuel g) :
    p.halt tEnd q.before = none ∧ StepsTo p tEnd q.before q.after q.fault := by
  induction fuel generalizing g with
  | zero => simp [passes] at h
  | succ fuel ih =>
    rw [passes_succ] at h
    rcases hh : p.halt tEnd g with _ | e
    · rw [hh] at h
      simp only [List.mem_cons] at h
      rcases h with rfl | h
      · exact ⟨hh, stepsTo_advanceOnce p tEnd g⟩
      · split at h
        · simp at h
        · exact ih h
    · simp [hh] at h

/-- The progress a run ends with is the one its last pass leaves, or where it started. -/
theorem loop_progress (fuel : Nat) (g : Progress) :
    (p.loop tEnd listen interrupt fuel g).progress =
      ((p.passes tEnd listen interrupt fuel g).getLast?.map Pass.after).getD g := by
  induction fuel generalizing g with
  | zero => rfl
  | succ fuel ih =>
    rw [loop_succ, passes_succ]
    rcases hh : p.halt tEnd g with _ | e
    · dsimp only
      rcases ha : after listen interrupt (p.advanceOnce tEnd g).1 (p.advanceOnce tEnd g).2 with _ | e
      · dsimp only
        rw [ih, List.getLast?_cons]
        cases hl : (p.passes tEnd listen interrupt fuel (p.advanceOnce tEnd g).1).getLast? <;> simp
      · dsimp only
        rw [after_progress listen interrupt ha]
        rfl
    · exact halt_progress p tEnd hh

/-- A run goes on from a boundary only before the end time, unasked to stop and below the
step limit. -/
theorem halt_eq_none {g : Progress} (h : p.halt tEnd g = none) :
    g.state.time < tEnd ∧ g.stopRequested = false ∧ (g.steps : Int) < p.limits.maxSteps := by
  simp only [halt] at h
  split_ifs at h with h1 h2 h3
  simp only [Bool.not_eq_true', decide_eq_false_iff_not, Decidable.not_not] at h1
  exact ⟨h1, by simpa using h2, by omega⟩

/-- A step after which the run goes on accepted its state and raised nothing. -/
theorem accepted_of_after_eq_none {g g' : Progress} {f : Option Fault}
    (hs : StepsTo p tEnd g g' f) (ha : after listen interrupt g' f = none) :
    f = none ∧ g'.steps = g.steps + 1 := by
  cases f with
  | some e => simp [after] at ha
  | none =>
    refine ⟨rfl, ?_⟩
    cases hs with
    | accepted => rfl

/-- Enough fuel for a run from `g`: its step count is within the limit, and the fuel lasts
until the count passes it. -/
def Enough (g : Progress) (fuel : Nat) : Prop :=
  g.steps ≤ p.limits.maxSteps.toNat ∧ p.limits.maxSteps.toNat < g.steps + fuel

/-- A run with enough fuel ends at a boundary, at its start or after its last pass, or right
after its last pass. -/
theorem loop_ending {fuel : Nat} {g : Progress} (hE : p.Enough g fuel) :
    (p.passes tEnd listen interrupt fuel g = [] ∧ p.halt tEnd g = some (p.loop tEnd listen interrupt fuel g)) ∨
      ∃ q, (p.passes tEnd listen interrupt fuel g).getLast? = some q ∧
        (after listen interrupt q.after q.fault = some (p.loop tEnd listen interrupt fuel g) ∨
          (after listen interrupt q.after q.fault = none ∧
            p.halt tEnd q.after = some (p.loop tEnd listen interrupt fuel g))) := by
  induction fuel generalizing g with
  | zero => exact absurd hE.2 (by have := hE.1; omega)
  | succ fuel ih =>
    obtain ⟨hE1, hE2⟩ := hE
    rw [loop_succ, passes_succ]
    rcases hh : p.halt tEnd g with _ | e
    · dsimp only
      have hg := halt_eq_none p tEnd hh
      have hs := stepsTo_advanceOnce p tEnd g
      generalize p.advanceOnce tEnd g = r at hs ⊢
      obtain ⟨g', f⟩ := r
      dsimp only at hs ⊢
      rcases ha : after listen interrupt g' f with _ | e
      · -- the run goes on from the accepted state
        dsimp only
        obtain ⟨-, hsteps⟩ := accepted_of_after_eq_none p tEnd listen interrupt hs ha
        have hE' : p.Enough g' fuel := ⟨by omega, by omega⟩
        rcases ih hE' with ⟨hp, hh'⟩ | ⟨q, hq, hend⟩
        · refine Or.inr ⟨⟨g, g', f⟩, by rw [hp]; rfl, Or.inr ⟨ha, hh'⟩⟩
        · refine Or.inr ⟨q, ?_, hend⟩
          rw [List.getLast?_cons, hq]
          rfl
      · exact Or.inr ⟨⟨g, g', f⟩, rfl, Or.inl ha⟩
    · exact Or.inl ⟨rfl, rfl⟩

/-- Consecutive passes of a run: the first accepted its state, raised nothing, and the run
went on from where it left. -/
theorem passes_chain (fuel : Nat) (g : Progress) :
    (p.passes tEnd listen interrupt fuel g).IsChain
      (fun q q' => after listen interrupt q.after q.fault = none ∧ q'.before = q.after) := by
  induction fuel generalizing g with
  | zero => exact List.isChain_nil
  | succ fuel ih =>
    rw [passes_succ]
    rcases p.halt tEnd g with _ | e
    · dsimp only
      generalize p.advanceOnce tEnd g = r
      obtain ⟨g', f⟩ := r
      dsimp only
      rcases ha : after listen interrupt g' f with _ | e
      · dsimp only
        refine List.IsChain.cons (ih g') ?_
        intro q hq
        refine ⟨ha, ?_⟩
        cases fuel with
        | zero => simp [passes] at hq
        | succ fuel =>
          rw [passes_succ] at hq
          split at hq
          · simp at hq
          · simp only [List.head?_cons, Option.mem_def, Option.some.injEq] at hq
            rw [← hq]
      · exact List.isChain_singleton _
    · exact List.isChain_nil

/-- The first pass of a run starts where the run does. -/
theorem passes_head (fuel : Nat) (g : Progress) :
    ∀ q ∈ (p.passes tEnd listen interrupt fuel g).head?, q.before = g := by
  intro q hq
  cases fuel with
  | zero => simp [passes] at hq
  | succ fuel =>
    rw [passes_succ] at hq
    split at hq
    · simp at hq
    · simp only [List.head?_cons, Option.mem_def, Option.some.injEq] at hq
      rw [← hq]

/-- A step that counts no state leaves the state where it was. -/
theorem StepsTo.state_of_not_accepted {g g' : Progress} {f : Option Fault}
    (hs : StepsTo p tEnd g g' f) (hn : g'.steps ≠ g.steps + 1) : g'.state = g.state := by
  cases hs with
  | accepted => exact absurd rfl hn
  | _ => rfl

/-- What every step of a run keeps holds of every progress of the run. -/
theorem passes_invariant (P : Progress → Prop)
    (hstep : ∀ g g' f, P g → p.halt tEnd g = none → StepsTo p tEnd g g' f → P g')
    {fuel : Nat} {g : Progress} (h0 : p.halt tEnd g = none → P g) :
    ∀ q ∈ p.passes tEnd listen interrupt fuel g, P q.before ∧ P q.after := by
  induction fuel generalizing g with
  | zero => simp [passes]
  | succ fuel ih =>
    intro q hq
    rw [passes_succ] at hq
    rcases hh : p.halt tEnd g with _ | e
    · rw [hh] at hq
      have h1 := hstep g _ _ (h0 hh) hh (stepsTo_advanceOnce p tEnd g)
      simp only [List.mem_cons] at hq
      rcases hq with rfl | hq
      · exact ⟨h0 hh, h1⟩
      · split at hq
        · simp at hq
        · exact ih (fun _ => h1) q hq
    · simp [hh] at hq

/-- What every step keeps holds where the loop ends. -/
theorem loop_invariant (P : Progress → Prop)
    (hstep : ∀ g g' f, P g → p.halt tEnd g = none → StepsTo p tEnd g g' f → P g') {fuel : Nat}
    {g : Progress} (h0 : P g) : P (p.loop tEnd listen interrupt fuel g).progress := by
  rw [loop_progress]
  rcases hl : (p.passes tEnd listen interrupt fuel g).getLast? with _ | q
  · exact h0
  · exact (p.passes_invariant tEnd listen interrupt P hstep (fun _ => h0) q
      (List.mem_of_getLast? hl)).2

/-- What every step after which a run goes on keeps holds where each pass starts. -/
theorem passes_before_invariant (P : Progress → Prop)
    (hstep : ∀ g g', P g → p.halt tEnd g = none → StepsTo p tEnd g g' none →
      after listen interrupt g' none = none → P g')
    {fuel : Nat} {g : Progress} (h0 : p.halt tEnd g = none → P g) :
    ∀ q ∈ p.passes tEnd listen interrupt fuel g, P q.before := by
  induction fuel generalizing g with
  | zero => simp [passes]
  | succ fuel ih =>
    intro q hq
    rw [passes_succ] at hq
    rcases hh : p.halt tEnd g with _ | e
    · rw [hh] at hq
      have hs := stepsTo_advanceOnce p tEnd g
      simp only [List.mem_cons] at hq
      rcases hq with rfl | hq
      · exact h0 hh
      · rcases ha : after listen interrupt (p.advanceOnce tEnd g).1 (p.advanceOnce tEnd g).2 with _ | e
        · rw [ha] at hq
          obtain ⟨hf, -⟩ := accepted_of_after_eq_none p tEnd listen interrupt hs ha
          rw [hf] at hs ha
          have h1 := hstep g _ (h0 hh) hh hs ha
          exact ih (fun _ => h1) q hq
        · rw [ha] at hq
          simp at hq
    · simp [hh] at hq

/-- A count that each step moves by an amount of its own ends a run at its start value plus
the amounts of the passes. -/
theorem loop_count (F : Progress → Nat) (d : Pass → Nat)
    (hF : ∀ g g' f, StepsTo p tEnd g g' f → F g' = F g + d ⟨g, g', f⟩) (fuel : Nat)
    (g : Progress) :
    F (p.loop tEnd listen interrupt fuel g).progress = F g + ((p.passes tEnd listen interrupt fuel g).map d).sum := by
  induction fuel generalizing g with
  | zero => simp [loop_zero, passes]
  | succ fuel ih =>
    rw [loop_succ, passes_succ]
    rcases hh : p.halt tEnd g with _ | e
    · dsimp only
      have hs := stepsTo_advanceOnce p tEnd g
      generalize p.advanceOnce tEnd g = r at hs ⊢
      obtain ⟨g', f⟩ := r
      dsimp only at hs ⊢
      rcases ha : after listen interrupt g' f with _ | e
      · dsimp only
        rw [ih, hF _ _ _ hs, List.map_cons, List.sum_cons, Nat.add_assoc]
      · dsimp only
        rw [after_progress listen interrupt ha, hF _ _ _ hs]
        simp
    · dsimp only
      rw [halt_progress p tEnd hh]
      simp

end Propagator

/-- What the ending of a run says about itself: a fault gives the reason it names, and is
neither an abandonment nor an interrupt; a run without a fault completed or was cancelled; it
completed only when interrupted, or at or past the end time with the consumer still listening;
it was cancelled only before the end time or by the consumer; an interrupt leaves it
completed; and the consumer abandons it only after the states it takes. -/
structure Ending.Sound (tEnd : Float) (listen : Option Nat) (e : Ending) : Prop where
  fault : ∀ f, e.error = some f →
    e.reason = Termination.ofFault f ∧ e.abandoned = false ∧ e.interrupted = false
  noFault : e.error = none → e.reason = .completed ∨ e.reason = .cancelled
  completed : e.reason = .completed →
    e.error = none ∧ e.abandoned = false ∧
      (e.interrupted = true ∨ ¬ e.progress.state.time < tEnd ∧ listen ≠ some e.progress.steps)
  cancelled : e.reason = .cancelled →
    e.error = none ∧ e.interrupted = false ∧ (e.abandoned = true ∨ e.progress.state.time < tEnd)
  interrupted : e.interrupted = true → e.reason = .completed
  abandoned : e.abandoned = true → listen = some e.progress.steps

namespace Propagator

variable (p : Propagator) (tEnd : Float) (listen : Option Nat) (interrupt : Option Interrupt)

theorem halt_sound {g : Progress} {e : Ending} (h : p.halt tEnd g = some e)
    (hl : listen ≠ some g.steps) : e.Sound tEnd listen := by
  simp only [halt] at h
  split_ifs at h with h1 h2 h3 <;> (injection h with h; subst h)
  · simp only [Bool.not_eq_true', decide_eq_false_iff_not] at h1
    exact ⟨by simp, by simp, fun _ => ⟨rfl, rfl, .inr ⟨h1, hl⟩⟩, by simp, by simp, by simp⟩
  · simp only [Bool.not_eq_true', decide_eq_false_iff_not, Decidable.not_not] at h1
    exact ⟨by simp, by simp, by simp, fun _ => ⟨rfl, rfl, Or.inr h1⟩, by simp, by simp⟩
  · refine ⟨fun f hf => ?_, by simp, by simp, by simp, by simp, by simp⟩
    cases hf
    exact ⟨rfl, rfl, rfl⟩

theorem after_sound {g : Progress} {f : Option Fault} {e : Ending}
    (h : after listen interrupt g f = some e) : e.Sound tEnd listen := by
  cases f with
  | some f' =>
    injection h with h
    subst h
    refine ⟨fun f hf => ?_, by simp, ?_, ?_, by simp, by simp⟩
    · cases hf; exact ⟨rfl, rfl, rfl⟩
    · intro hc; cases f' <;> cases hc
    · intro hc; cases f' <;> cases hc
  | none =>
    simp only [after] at h
    split_ifs at h with hi hl <;> (injection h with h; subst h)
    · exact ⟨by simp, by simp, fun _ => ⟨rfl, rfl, .inl rfl⟩, by simp, fun _ => rfl, by simp⟩
    · exact ⟨by simp, by simp, by simp, fun _ => ⟨rfl, rfl, Or.inl rfl⟩, by simp,
        fun _ => by simpa using hl⟩

theorem listen_ne_of_after_eq_none {g : Progress} {f : Option Fault}
    (h : after listen interrupt g f = none) : f = none ∧ listen ≠ some g.steps := by
  cases f with
  | some _ => simp [after] at h
  | none =>
    simp only [after] at h
    split_ifs at h with hi hl
    exact ⟨rfl, by simpa using hl⟩

/-- A run with enough fuel, whose consumer did not stop listening before its first step, ends
soundly. -/
theorem loop_sound {fuel : Nat} {g : Progress} (hE : p.Enough g fuel)
    (hl : listen ≠ some g.steps) : (p.loop tEnd listen interrupt fuel g).Sound tEnd listen := by
  rcases p.loop_ending tEnd listen interrupt hE with ⟨-, hh⟩ | ⟨q, -, ha | ⟨ha, hh⟩⟩
  · exact p.halt_sound tEnd listen hh hl
  · exact after_sound tEnd listen interrupt ha
  · exact p.halt_sound tEnd listen hh (listen_ne_of_after_eq_none listen interrupt ha).2

end Propagator

end Spacecraft
