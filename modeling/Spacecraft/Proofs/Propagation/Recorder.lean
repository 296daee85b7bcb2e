import Mathlib
import Spacecraft.Proofs.Propagation.Report
import Spacecraft.Proofs.Propagation.Accepted

/-!
# The recorder of a run

An ephemeris takes a state only when it is later than the last state it holds, and keeps a
copy of it (`Ephemeris.append_eq_ok`); so whatever sequence of states it is offered, the
times it holds strictly increase (`Ephemeris.Ordered.appendEach`), and an offer that is not
later is refused and changes nothing (`Ephemeris.append_refused`).

A run whose first observer is a fresh recorder tells it of the starting state and then of
every accepted state before any other observer hears of it. The recorder ends holding a copy
of each state it was told of, in order, or of each but the last one, which it refused; its
refusal is then the fault the run reports (`recorder_holds_run`). It refuses nothing exactly
when the times of those states strictly increase and each can be copied.

Neither holds of every run. A state whose quaternion grew too long to measure is normalized to
zero when it is rebuilt, passes the checks of its step, and cannot be copied, so the recorder
refuses it and the run fails (`tumbling_run_recorder_refuses`); and a step too small to move a
large time repeats that time, which the recorder refuses as well.
-/

namespace Spacecraft

/-- A state that cannot be copied has a quaternion that cannot be normalized, an invalid
argument. -/
theorem SatState.copy_error {s : SatState} {f : Fault} (h : s.copy = .error f) :
    ∃ text, f = .invalidArgument text := by
  unfold SatState.copy SatState.ofParts at h
  split at h
  · unfold Quat.normalize Quat.normalizeList at h
    dsimp only at h
    split at h
    · cases h; exact ⟨_, rfl⟩
    · -- four components always unpack
      cases h
  · cases h

namespace Ephemeris

/-- The recorded times strictly increase. -/
def Ordered (e : Ephemeris) : Prop := e.times.IsChain (· < ·)

/-- The entries are copies of the given states, in their order. -/
def Holds (e : Ephemeris) (L : List SatState) : Prop :=
  List.Forall₂ (fun s c => s.copy = .ok c) L e.entries.toList

/-- The ephemeris after each state of a list is offered in turn, a refused offer leaving it as
it was. -/
def appendEach (e : Ephemeris) : List SatState → Ephemeris
  | [] => e
  | s :: ss =>
    match e.append s with
    | .ok e' => e'.appendEach ss
    | .error _ => e.appendEach ss

theorem times_push (e : Ephemeris) (c : SatState) :
    ({ entries := e.entries.push c } : Ephemeris).times = e.times ++ [c.time] := by
  simp [times]

theorem times_getLast? (e : Ephemeris) : e.times.getLast? = e.last?.map (·.time) := by
  simp [times, last?, Array.back?_eq_getElem?, List.getLast?_eq_getElem?]

/-- An accepted append keeps a copy of the state, which is later than the last one held. -/
theorem append_eq_ok {e e' : Ephemeris} {s : SatState} (h : e.append s = .ok e') :
    ∃ c, s.copy = .ok c ∧ (∀ last ∈ e.last?, last.time < s.time) ∧
      e' = { entries := e.entries.push c } := by
  unfold append at h
  obtain ⟨c, hc, h⟩ := Outcome.bind_eq_ok h
  refine ⟨c, hc, ?_⟩
  rcases hl : e.last? with _ | last
  · rw [hl] at h
    cases h
    exact ⟨by simp, rfl⟩
  · rw [hl] at h
    dsimp only at h
    split_ifs at h with ht
    cases h
    exact ⟨fun l hl' => by cases hl'; exact ht, rfl⟩

/-- An append is accepted exactly when the state can be copied and is later than the last one
held. -/
theorem append_isOk_iff (e : Ephemeris) (s : SatState) :
    (∃ e', e.append s = .ok e') ↔
      (∃ c, s.copy = .ok c) ∧ ∀ last ∈ e.last?, last.time < s.time := by
  constructor
  · rintro ⟨e', h⟩
    obtain ⟨c, hc, hlate, -⟩ := append_eq_ok h
    exact ⟨⟨c, hc⟩, hlate⟩
  · rintro ⟨⟨c, hc⟩, hlate⟩
    unfold append
    rw [hc]
    rcases hl : e.last? with _ | last
    · exact ⟨_, rfl⟩
    · exact ⟨_, by simp only [Outcome.ok_bind, if_pos (hlate last hl)]; rfl⟩

/-- An append refuses with an invalid argument: a state that cannot be copied, or one that is
not later than the last one held. -/
theorem append_eq_error {e : Ephemeris} {s : SatState} {f : Fault} (h : e.append s = .error f) :
    ∃ text, f = .invalidArgument text := by
  unfold append at h
  rcases hc : s.copy with f' | c
  · rw [hc] at h
    cases h
    exact SatState.copy_error hc
  · rw [hc, Outcome.ok_bind] at h
    split at h
    · split_ifs at h
      · cases h
      · exact ⟨_, (Except.error.inj h).symm⟩
    · cases h

/-- A state that is not later than the last one held is refused with an invalid argument. -/
theorem append_refused {e : Ephemeris} {s last : SatState} (hl : e.last? = some last)
    (ht : ¬ last.time < s.time) : ∃ text, e.append s = .error (.invalidArgument text) := by
  unfold append
  rcases hc : s.copy with f | c
  · -- a copy fails only on a zero quaternion, which is an invalid argument too
    obtain ⟨text, rfl⟩ := SatState.copy_error hc
    exact ⟨text, rfl⟩
  · simp only [Outcome.ok_bind, hl]
    exact ⟨_, if_neg ht⟩

theorem Ordered.append {e e' : Ephemeris} {s : SatState} (he : e.Ordered)
    (h : e.append s = .ok e') : e'.Ordered := by
  obtain ⟨c, hc, hlate, rfl⟩ := append_eq_ok h
  unfold Ordered
  rw [times_push, (Propagator.copy_eq_ok hc).1]
  refine List.IsChain.append he (List.isChain_singleton _) fun a ha b hb => ?_
  rw [times_getLast?, Option.mem_map] at ha
  obtain ⟨last, hlast, rfl⟩ := ha
  rw [List.head?_singleton, Option.mem_some_iff] at hb
  exact hb ▸ hlate last hlast

/-- Offered any states in any order, an ordered ephemeris stays ordered. -/
theorem Ordered.appendEach {e : Ephemeris} (he : e.Ordered) (ss : List SatState) :
    (e.appendEach ss).Ordered := by
  induction ss generalizing e with
  | nil => exact he
  | cons s ss ih =>
    unfold Ephemeris.appendEach
    split
    · next e' h => exact ih (he.append h)
    · exact ih he

theorem ordered_empty : ({} : Ephemeris).Ordered := List.isChain_nil

/-- A refused offer changes nothing. -/
theorem appendEach_cons_of_error {e : Ephemeris} {s : SatState} {f : Fault}
    (h : e.append s = .error f) (ss : List SatState) :
    e.appendEach (s :: ss) = e.appendEach ss := by
  simp only [appendEach, h]

theorem Holds.append {e e' : Ephemeris} {L : List SatState} {s : SatState} (he : e.Holds L)
    (h : e.append s = .ok e') : e'.Holds (L ++ [s]) := by
  obtain ⟨c, hc, -, rfl⟩ := append_eq_ok h
  unfold Holds
  rw [Array.toList_push]
  exact List.rel_append he (List.Forall₂.cons hc List.Forall₂.nil)

theorem holds_empty : ({} : Ephemeris).Holds [] := List.Forall₂.nil

/-- An ephemeris holding copies of some states has as many entries. -/
theorem Holds.size {e : Ephemeris} {L : List SatState} (he : e.Holds L) : e.size = L.length := by
  rw [Ephemeris.size, ← Array.length_toList]
  exact he.length_eq.symm

/-- An ephemeris holding copies of some states holds their times. -/
theorem Holds.times {e : Ephemeris} {L : List SatState} (he : e.Holds L) :
    e.times = L.map SatState.time := by
  unfold Ephemeris.times
  unfold Holds at he
  generalize e.entries.toList = cs at he ⊢
  induction he with
  | nil => rfl
  | cons hc _ ih => rw [List.map_cons, List.map_cons, ih, (Propagator.copy_eq_ok hc).1]

/-- An ephemeris holding copies of some states takes the next one when their times strictly
increase and it can be copied. -/
theorem Holds.append_isOk {e : Ephemeris} {L : List SatState} {s : SatState} (he : e.Holds L)
    (hchain : ((L ++ [s]).map SatState.time).IsChain (· < ·)) (hc : ∃ c, s.copy = .ok c) :
    ∃ e', e.append s = .ok e' := by
  refine (append_isOk_iff e s).2 ⟨hc, fun last hlast => ?_⟩
  have hlt := (List.isChain_append.1 (by simpa using hchain)).2.2
  refine hlt last.time ?_ s.time (by simp)
  rw [← he.times, times_getLast?]
  exact Option.mem_map_of_mem _ hlast

/-- Every state an ephemeris holds copies of can be copied. -/
theorem Holds.copy_ok {e : Ephemeris} {L : List SatState} (he : e.Holds L) :
    ∀ s ∈ L, ∃ c, s.copy = .ok c := by
  unfold Holds at he
  generalize e.entries.toList = cs at he
  induction he with
  | nil => simp
  | cons hc _ ih =>
    intro s hs
    rcases List.mem_cons.1 hs with rfl | hs
    · exact ⟨_, hc⟩
    · exact ih s hs

/-- What a recorder told of the states `L` in turn holds: copies of all of them, or of all but
the last one, which it refused with the fault `fault` reports. -/
def Recorded (e : Ephemeris) (L : List SatState) (fault : Option Fault) : Prop :=
  e.Holds L ∨ ∃ A s f, L = A ++ [s] ∧ e.Holds A ∧ e.append s = .error f ∧ fault = some f

/-- A recorder that took or refused each state it was told of holds them all exactly when
their times strictly increase and each can be copied. -/
theorem Recorded.holds_iff {e : Ephemeris} {L : List SatState} {fault : Option Fault}
    (he : e.Recorded L fault) (ho : e.Ordered) :
    e.Holds L ↔ (L.map SatState.time).IsChain (· < ·) ∧ ∀ s ∈ L, ∃ c, s.copy = .ok c := by
  constructor
  · intro hL
    refine ⟨?_, hL.copy_ok⟩
    rw [← hL.times]
    exact ho
  · rintro ⟨hchain, hcopies⟩
    rcases he with hL | ⟨A, s, f, rfl, hA, herr, -⟩
    · exact hL
    · -- the refused state was later than the last one held and could be copied
      obtain ⟨e', he'⟩ := hA.append_isOk hchain (hcopies s (by simp))
      rw [herr] at he'
      cases he'

end Ephemeris

namespace Propagator

variable (p : Propagator) (tEnd : Float) (listen : Option Nat) (interrupt : Option Interrupt)

/-- The first observer of a progress is a recorder holding `E`. -/
def RecorderFirst (E : Ephemeris) (g : Progress) : Prop :=
  ∃ rest, g.observers = .recorder E :: rest

/-- Telling observers of a step keeps those already told in front. -/
theorem noticeEach_prefix (s : SatState) (isLast : Bool) :
    ∀ (os done : List Observer) (stop : Bool),
      ∃ tail, (noticeEach s isLast done os stop).1 = done ++ tail := by
  intro os
  induction os with
  | nil => exact fun done _ => ⟨[], by simp [noticeEach]⟩
  | cons o os ih =>
    intro done stop
    simp only [noticeEach]
    split
    · rename_i n _
      obtain ⟨tail, htail⟩ := ih (done ++ [n.observer]) (stop || n.stop)
      exact ⟨n.observer :: tail, by rw [htail]; simp⟩
    · exact ⟨o :: os, rfl⟩

/-- Telling observers that a run starts keeps those already told in front. -/
theorem startEach_prefix (s : SatState) :
    ∀ (os done : List Observer), ∃ tail, (startEach s done os).1 = done ++ tail := by
  intro os
  induction os with
  | nil => exact fun done => ⟨[], by simp [startEach]⟩
  | cons o os ih =>
    intro done
    simp only [startEach]
    split
    · rename_i o' _
      obtain ⟨tail, htail⟩ := ih (done ++ [o'])
      exact ⟨o' :: tail, by rw [htail]; simp⟩
    · exact ⟨o :: os, rfl⟩

/-- A recorder in front hears of a step first: it takes the state, or refuses it and stops the
telling with its refusal, leaving every observer as it was. -/
theorem noticeEach_recorder (s : SatState) (isLast : Bool) (E : Ephemeris)
    (rest : List Observer) (stop : Bool) :
    (∃ E', E.append s = .ok E' ∧
        ∃ tail, (noticeEach s isLast [] (.recorder E :: rest) stop).1 = .recorder E' :: tail) ∨
      ∃ f, E.append s = .error f ∧
        noticeEach s isLast [] (.recorder E :: rest) stop = (.recorder E :: rest, stop, some f) := by
  rcases h : E.append s with f | E'
  · refine .inr ⟨f, rfl, ?_⟩
    simp [noticeEach, Observer.notice, h]
  · refine .inl ⟨E', rfl, ?_⟩
    obtain ⟨tail, htail⟩ := noticeEach_prefix s isLast rest [.recorder E'] stop
    exact ⟨tail, by simp [noticeEach, Observer.notice, h, htail]⟩

/-- A fresh recorder in front hears first that a run starts: it takes the starting state, or
refuses it and stops the telling with its refusal. -/
theorem startEach_newRecorder (s : SatState) (observers : List Observer) :
    (∃ E, ({} : Ephemeris).append s = .ok E ∧
        ∃ tail, (startEach s [] (Observer.newRecorder :: observers)).1 = .recorder E :: tail) ∨
      ∃ f, ({} : Ephemeris).append s = .error f ∧
        startEach s [] (Observer.newRecorder :: observers) =
          (Observer.newRecorder :: observers, some f) := by
  have hstart : Observer.newRecorder.start s = Observer.recorder <$> ({} : Ephemeris).append s :=
    rfl
  rcases h : ({} : Ephemeris).append s with f | E
  · refine .inr ⟨f, rfl, ?_⟩
    simp [startEach, hstart, h]
  · refine .inl ⟨E, rfl, ?_⟩
    obtain ⟨tail, htail⟩ := startEach_prefix s observers [.recorder E]
    exact ⟨tail, by simp [startEach, hstart, h, htail]⟩

variable {p tEnd}

/-- One step with a recorder in front: a step that accepts no state leaves the observers as
they were; an accepted state is taken by the recorder, or refused, and then the refusal is the
fault of the step and the observers are as they were. -/
theorem stepsTo_recorder {g g' : Progress} {f : Option Fault} {E : Ephemeris}
    (hs : StepsTo p tEnd g g' f) (hg : RecorderFirst E g) :
    (g'.steps ≠ g.steps + 1 ∧ g'.observers = g.observers) ∨
      (g'.steps = g.steps + 1 ∧
        ((∃ E', E.append g'.state = .ok E' ∧ RecorderFirst E' g') ∨
          ∃ f', E.append g'.state = .error f' ∧ g'.observers = g.observers ∧ f = some f')) := by
  obtain ⟨rest, hg⟩ := hg
  cases hs with
  | retryFault => exact .inl ⟨by omega, rfl⟩
  | rebuildFault => exact .inl ⟨by simp, rfl⟩
  | advanceFault => exact .inl ⟨by simp, rfl⟩
  | @accepted o h k s c d obs stop fault _ _ _ hn =>
    refine .inr ⟨rfl, ?_⟩
    rw [hg] at hn
    rcases noticeEach_recorder s (decide (s.time ≥ tEnd)) E rest g.stopRequested with
      ⟨E', hE', tail, htail⟩ | ⟨f', hf', hrefused⟩
    · refine .inl ⟨E', hE', tail, ?_⟩
      rw [hn] at htail
      exact htail
    · rw [hn, Prod.mk.injEq, Prod.mk.injEq] at hrefused
      exact .inr ⟨f', hf', hrefused.1.trans hg.symm, hrefused.2.2⟩

variable (p tEnd)

/-- A loop with a recorder in front that holds copies of `L` ends with the recorder in front,
its times still increasing, holding copies of `L` and of the states the loop accepted, or of
all but the last of them, which it refused with the fault the loop ends on. -/
theorem loop_recorder {fuel : Nat} {g : Progress} {E : Ephemeris} {L : List SatState}
    (hg : RecorderFirst E g) (hL : E.Holds L) (ho : E.Ordered) :
    ∃ E', RecorderFirst E' (p.loop tEnd listen interrupt fuel g).progress ∧ E'.Ordered ∧
      E'.Recorded (L ++ (p.passes tEnd listen interrupt fuel g).filterMap Pass.acceptedState)
        (p.loop tEnd listen interrupt fuel g).error := by
  induction fuel generalizing g E L with
  | zero => exact ⟨E, hg, ho, .inl (by simpa [passes] using hL)⟩
  | succ fuel ih =>
    rw [loop_succ, passes_succ]
    rcases hh : p.halt tEnd g with _ | e
    · dsimp only
      have hs := stepsTo_advanceOnce p tEnd g
      generalize p.advanceOnce tEnd g = r at hs ⊢
      obtain ⟨g', f⟩ := r
      dsimp only at hs ⊢
      rcases stepsTo_recorder hs hg with ⟨hn, hobs⟩ | ⟨hacc, ⟨E', hE', hg'⟩ | ⟨f', hf', hobs, rfl⟩⟩
      · -- no state accepted: the run stops after this step, with the recorder as it was
        have hnone : Pass.acceptedState ⟨g, g', f⟩ = none := if_neg hn
        rcases ha : after listen interrupt g' f with _ | e
        · exact absurd (accepted_of_after_eq_none p tEnd listen interrupt hs ha).2 hn
        · refine ⟨E, ?_, ho, .inl ?_⟩
          · rw [after_progress listen interrupt ha, RecorderFirst, hobs]
            exact hg
          · simpa [hnone] using hL
      · -- the recorder took the accepted state
        have hsome : Pass.acceptedState ⟨g, g', f⟩ = some g'.state := if_pos hacc
        have hL' := hL.append hE'
        have ho' := ho.append hE'
        rcases ha : after listen interrupt g' f with _ | e
        · obtain ⟨E'', hg'', ho'', hrec⟩ := ih hg' hL' ho'
          refine ⟨E'', hg'', ho'', ?_⟩
          simpa [hsome] using hrec
        · refine ⟨E', by rw [after_progress listen interrupt ha]; exact hg', ho', .inl ?_⟩
          simpa [hsome] using hL'
      · -- the recorder refused the accepted state, and its refusal ends the run
        have hsome : Pass.acceptedState ⟨g, g', some f'⟩ = some g'.state := if_pos hacc
        have ha : after listen interrupt g' (some f') =
            some { progress := g', reason := Termination.ofFault f', error := some f' } := rfl
        rw [ha]
        refine ⟨E, ?_, ho, .inr ⟨L, g'.state, f', by simp [hsome], hL, hf', rfl⟩⟩
        rw [RecorderFirst, hobs]
        exact hg
    · dsimp only
      rw [halt_progress p tEnd hh]
      exact ⟨E, hg, ho, .inl (by simpa using hL)⟩

/-- The loop of a run whose first observer is a fresh recorder ends with the recorder in front,
its times increasing, holding copies of the starting state and of the accepted states, or of all
but the last of them, refused with the fault the loop ends on. -/
theorem openingEnding_recorder {initial : SatState} {observers : List Observer} {g : Progress}
    {f : Option Fault}
    (h : p.opening tEnd listen initial (Observer.newRecorder :: observers) = some (g, f)) :
    ∃ E, RecorderFirst E (p.openingEnding tEnd listen interrupt g f).progress ∧ E.Ordered ∧
      E.Recorded
        (g.state :: p.acceptedStates tEnd listen initial (Observer.newRecorder :: observers)
          interrupt)
        (p.openingEnding tEnd listen interrupt g f).error := by
  obtain ⟨-, -, s0, d, c, d', -, -, -, hg, hf⟩ := p.opening_eq_some tEnd listen h
  have hobs : g.observers = (startEach s0 [] (Observer.newRecorder :: observers)).1 := by
    rw [hg]
  have hstate : g.state = s0 := by rw [hg]
  unfold acceptedStates openingEnding
  rw [p.runPasses_eq tEnd listen interrupt h, hstate]
  rcases startEach_newRecorder s0 observers with ⟨E0, hE0, tail, htail⟩ | ⟨f0, hf0, hstart⟩
  · have hg0 : RecorderFirst E0 g := ⟨tail, hobs.trans htail⟩
    have hL0 : E0.Holds [s0] := by simpa using Ephemeris.holds_empty.append hE0
    have ho0 := Ephemeris.ordered_empty.append hE0
    rcases ha : after listen interrupt g f with _ | e
    · simpa using p.loop_recorder tEnd listen interrupt hg0 hL0 ho0
    · -- a later observer failed to start, or an interrupt came first: no step is taken
      refine ⟨E0, ?_, ho0, .inl (by simpa using hL0)⟩
      rw [after_progress listen interrupt ha]
      exact hg0
  · -- the recorder refused the starting state: its refusal stops the run before any step
    rw [hstart] at hobs hf
    subst hf
    refine ⟨{}, ⟨observers, by simp [after, hobs, Observer.newRecorder]⟩,
      Ephemeris.ordered_empty, .inr ⟨[], s0, f0, by simp [after], Ephemeris.holds_empty, hf0,
        rfl⟩⟩

/-- A run whose first observer is a fresh recorder, whatever its other observers, its end time
and how long its consumer listens: the recorder ends first among the observers the run leaves,
its times strictly increasing, and holds copies of the run's copied starting state and of every
state the run accepted, in order, one entry more than the steps the run reports; or of all but
the last of these states, which it refused, and then its refusal is the fault the run reports
and the run failed. It holds them all exactly when their times strictly increase and each of
them can be copied. -/
theorem recorder_holds_run {p : Propagator} {initial : SatState} {tEnd : Float}
    {observers : List Observer} {listen : Option Nat} {S : RunSummary}
    (hS : (p.propagate initial tEnd (Observer.newRecorder :: observers) listen).summary = some S) :
    ∃ s0 E, initial.copy = .ok s0 ∧
      (∃ rest, (p.propagate initial tEnd (Observer.newRecorder :: observers) listen).observers =
        .recorder E :: rest) ∧ E.Ordered ∧
      let L := s0 :: p.acceptedStates tEnd listen initial (Observer.newRecorder :: observers)
      ((E.Holds L ∧ E.size = S.steps + 1) ∨
        ∃ A s f, L = A ++ [s] ∧ E.Holds A ∧ E.append s = .error f ∧ S.error = some f ∧
          S.reason = .failed) ∧
      (E.Holds L ↔ (L.map SatState.time).IsChain (· < ·) ∧ ∀ s ∈ L, ∃ c, s.copy = .ok c) := by
  obtain ⟨g, f, ho⟩ := p.exists_opening tEnd listen none hS
  obtain ⟨-, -, s0, d, c, d', hc, -, -, hg, -⟩ := p.opening_eq_some tEnd listen ho
  have hstate : g.state = s0 := by rw [hg]
  obtain ⟨E, ⟨rest, hfirst⟩, hord, hrec⟩ := p.openingEnding_recorder tEnd listen none ho
  rw [hstate] at hrec
  rw [p.propagate_eq tEnd listen none ho] at hS ⊢
  obtain ⟨-, hsteps, -⟩ := conclude_endTime hS
  refine ⟨s0, E, hc, ⟨rest, by rw [conclude_observers]; exact hfirst⟩, hord, ?_, hrec.holds_iff hord⟩
  rcases hrec with hL | ⟨A, s, f', hL, hA, herr, hfault⟩
  · -- every state was taken: one entry for the start and one per accepted state
    refine .inl ⟨hL, ?_⟩
    rw [hL.size, List.length_cons, hsteps, p.ending_steps tEnd listen none ho]
  · -- the refusal is the fault of the loop, so the run reports it and fails
    obtain ⟨text, rfl⟩ := Ephemeris.append_eq_error herr
    rcases conclude_cases (p.openingEnding_sound tEnd listen none ho) hS with
      ⟨f, he, herror, -, -, hreason⟩ | ⟨c, he, -⟩ | ⟨he, -⟩
    · rw [hfault, Option.some.injEq] at he
      subst he
      exact .inr ⟨A, s, _, hL, hA, herr, herror, hreason⟩
    · rw [hfault] at he; cases he
    · rw [hfault] at he; cases he

end Propagator

namespace Propagator

/-- An ephemeris and the recorder of a run that offers the recorder only states it can take.
Whatever states an ordered ephemeris is offered, in whatever order, its times stay strictly
increasing; an append is accepted exactly when the state can be copied and is later than the
last entry, and then keeps a copy of it; a refused append is an invalid argument and leaves
the ephemeris as it was for the offers after it. A fresh recorder first among a run's
observers, when the times of the start and of the accepted states strictly increase and the
copy of the start and every accepted state can be copied, refuses nothing: it ends first among
the observers that the run leaves, holding copies of the copied start and of every accepted
state, in order, one entry more than the steps the run reports. -/
theorem recorder_keeps_copyable_runs {p : Propagator} {initial : SatState} {tEnd : Float}
    {observers : List Observer} {listen : Option Nat} {S : RunSummary}
    (hS : (p.propagate initial tEnd (Observer.newRecorder :: observers) listen).summary = some S)
    (htimes : ((initial :: p.acceptedStates tEnd listen initial
      (Observer.newRecorder :: observers)).map SatState.time).IsChain (· < ·))
    (hstart : (initial.copy >>= SatState.copy).isOk = true)
    (hcopies : ∀ s ∈ p.acceptedStates tEnd listen initial (Observer.newRecorder :: observers),
      s.copy.isOk = true) :
    (∀ (e : Ephemeris) (ss : List SatState), e.Ordered → (e.appendEach ss).Ordered) ∧
    (∀ (e : Ephemeris) (s : SatState),
      (∃ e', e.append s = .ok e') ↔
        (∃ c, s.copy = .ok c) ∧ ∀ last ∈ e.last?, last.time < s.time) ∧
    (∀ (e e' : Ephemeris) (s : SatState), e.append s = .ok e' →
      ∃ c, s.copy = .ok c ∧ e'.entries = e.entries.push c) ∧
    (∀ (e : Ephemeris) (s : SatState) (f : Fault), e.append s = .error f →
      (∃ text, f = .invalidArgument text) ∧ ∀ ss, e.appendEach (s :: ss) = e.appendEach ss) ∧
    ∃ s0 E, initial.copy = .ok s0 ∧
      (∃ rest, (p.propagate initial tEnd (Observer.newRecorder :: observers) listen).observers =
        .recorder E :: rest) ∧ E.Ordered ∧
      E.Holds (s0 :: p.acceptedStates tEnd listen initial (Observer.newRecorder :: observers)) ∧
      E.size = S.steps + 1 := by
  refine ⟨fun e ss he => he.appendEach ss, Ephemeris.append_isOk_iff, fun e e' s h => ?_,
    fun e s f h => ⟨Ephemeris.append_eq_error h, Ephemeris.appendEach_cons_of_error h⟩, ?_⟩
  · obtain ⟨c, hc, -, rfl⟩ := Ephemeris.append_eq_ok h
    exact ⟨c, hc, rfl⟩
  obtain ⟨s0, E, hc, hfirst, hord, hrec, hiff⟩ := recorder_holds_run hS
  -- the copy of the start is at the start's time, and can be copied as the start's copy can
  have hchain : ((s0 :: p.acceptedStates tEnd listen initial
      (Observer.newRecorder :: observers)).map SatState.time).IsChain (· < ·) := by
    rw [List.map_cons, (copy_eq_ok hc).1]
    exact htimes
  have hall : ∀ s ∈ s0 :: p.acceptedStates tEnd listen initial (Observer.newRecorder :: observers),
      ∃ c, s.copy = .ok c := by
    intro s hs
    rcases List.mem_cons.1 hs with rfl | hs
    · rw [hc] at hstart
      exact Outcome.exists_of_isOk hstart
    · exact Outcome.exists_of_isOk (hcopies s hs)
  have hholds := hiff.2 ⟨hchain, hall⟩
  refine ⟨s0, E, hc, hfirst, hord, hholds, ?_⟩
  rcases hrec with hL | ⟨A, s, f, hL, hA, -⟩
  · exact hL.2
  · -- holding every state and all but the last of them would give the recorder two sizes
    have h1 := hholds.size
    rw [hL, hA.size, List.length_append, List.length_singleton] at h1
    omega

/-- The sample run of two fixed steps with a fresh recorder offers it only states it can take,
and its recorder holds them all, as `recorder_keeps_copyable_runs` says. -/
theorem sample_run_recorded :
    ∃ S, (samplePropagator.propagate sampleState 1.0 [Observer.newRecorder]).summary = some S ∧
    ((sampleState :: samplePropagator.acceptedStates 1.0 none sampleState
      [Observer.newRecorder]).map SatState.time).IsChain (· < ·) ∧
    (sampleState.copy >>= SatState.copy).isOk = true ∧
    (∀ s ∈ samplePropagator.acceptedStates 1.0 none sampleState [Observer.newRecorder],
      s.copy.isOk = true) ∧
    (∀ (e : Ephemeris) (ss : List SatState), e.Ordered → (e.appendEach ss).Ordered) ∧
    (∀ (e : Ephemeris) (s : SatState),
      (∃ e', e.append s = .ok e') ↔
        (∃ c, s.copy = .ok c) ∧ ∀ last ∈ e.last?, last.time < s.time) ∧
    (∀ (e e' : Ephemeris) (s : SatState), e.append s = .ok e' →
      ∃ c, s.copy = .ok c ∧ e'.entries = e.entries.push c) ∧
    (∀ (e : Ephemeris) (s : SatState) (f : Fault), e.append s = .error f →
      (∃ text, f = .invalidArgument text) ∧ ∀ ss, e.appendEach (s :: ss) = e.appendEach ss) ∧
    ∃ s0 E, sampleState.copy = .ok s0 ∧
      (∃ rest, (samplePropagator.propagate sampleState 1.0 [Observer.newRecorder]).observers =
        .recorder E :: rest) ∧ E.Ordered ∧
      E.Holds (s0 :: samplePropagator.acceptedStates 1.0 none sampleState [Observer.newRecorder]) ∧
      E.size = S.steps + 1 := by
  obtain ⟨S, hS⟩ : ∃ S,
      (samplePropagator.propagate sampleState 1.0 [Observer.newRecorder]).summary = some S :=
    Option.isSome_iff_exists.1 (by decide +kernel)
  have htimes : ((sampleState :: samplePropagator.acceptedStates 1.0 none sampleState
      [Observer.newRecorder]).map SatState.time).IsChain (· < ·) := by
    decide +kernel
  have hstart : (sampleState.copy >>= SatState.copy).isOk = true := by decide +kernel
  have hcopies : ∀ s ∈ samplePropagator.acceptedStates 1.0 none sampleState
      [Observer.newRecorder], s.copy.isOk = true := by
    decide +kernel
  exact ⟨S, hS, htimes, hstart, hcopies, recorder_keeps_copyable_runs hS htimes hstart hcopies⟩

/-- One half-second step of the tumbling sample integrates a quaternion too long to measure; it
is normalized to zero, accepted, and cannot be copied, so the fresh recorder refuses it: the run
fails with that refusal after one accepted state, and the recorder holds one entry. -/
theorem tumbling_run_recorder_refuses :
    let R := samplePropagator.propagate tumblingState 0.5 [Observer.newRecorder]
    (samplePropagator.acceptedStates 0.5 none tumblingState [Observer.newRecorder]).map
        (·.quaternion.toList) = [[0.0, 0.0, 0.0, 0.0]] ∧
      R.summary.map (·.reason) = some .failed ∧ R.summary.map (·.steps) = some 1 ∧
      (R.observers.head?.bind Observer.ephemeris?).map Ephemeris.size = some 1 ∧
      R.escaped.map Fault.message = some "Cannot normalize a zero-length quaternion" := by
  decide +kernel

end Propagator

end Spacecraft
