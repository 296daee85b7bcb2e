import Mathlib
import Spacecraft.Proofs.Propagation.Run
import Spacecraft.Proofs.Propagation.Retry
import Spacecraft.Proofs.Binary64.Special
import Spacecraft.Proofs.Tracked

/-!
# One accepted step

What a step that is accepted gives, read off the trial that produced it and the state rebuilt
from that trial. The retry loop took the step `h` halved `k` times, after `k` refusals
(`trials_ok`). The new state holds the entries of the flat array in the order of
`SatState.toArray`, with the inertia and the time it was given and its quaternion normalized
when finite (`Rebuilt`); it is finite and within the position bound (`rebuild_ok`). A trial
of NaN or infinite size leaves no entry finite (`attempt_state_not_finite`), so an accepted
step has a finite size (`accepted_step_finite`).
-/

namespace Spacecraft

theorem Vec3.toList_of_ofList? {l : List Float} {v : Vec3} (h : Vec3.ofList? l = some v) :
    v.toList = l := by
  match l, h with
  | [_, _, _], h => cases h; rfl

theorem Quat.toList_of_ofList {l : List Float} {q : Quat} (h : Quat.ofList l = .ok q) :
    q.toList = l := by
  unfold Quat.ofList at h
  split at h
  · cases h; rfl
  · split at h <;> cases h

@[simp] theorem Mat3.ofLists?_toLists (m : Mat3) : Mat3.ofLists? m.toLists = some m := rfl

namespace SatState

/-- A state built from component lists holds them, with a finite quaternion normalized. -/
theorem make_spec {position velocity quaternion angularVelocity : List Float} {mass : Float}
    {inertia : List (List Float)} {time : Float} {s : SatState}
    (h : make position velocity quaternion angularVelocity mass inertia time = .ok s) :
    s.position.toList = position ∧ s.velocity.toList = velocity ∧
      s.angularVelocity.toList = angularVelocity ∧ s.mass = mass ∧ s.time = time ∧
      Mat3.ofLists? inertia = some s.inertia ∧
      ∃ q, Quat.ofList quaternion = .ok q ∧
        (if q.isFinite then Quat.normalize q else pure q) = .ok s.quaternion := by
  unfold make at h
  obtain ⟨_, -, h⟩ := Outcome.bind_eq_ok h
  obtain ⟨_, -, h⟩ := Outcome.bind_eq_ok h
  obtain ⟨_, -, h⟩ := Outcome.bind_eq_ok h
  obtain ⟨_, -, h⟩ := Outcome.bind_eq_ok h
  rcases hm : Mat3.ofLists? inertia with _ | m
  · rw [hm] at h; cases h
  rw [hm] at h
  obtain ⟨q, hq, h⟩ := Outcome.bind_eq_ok h
  -- only the three vectors can still fail, and the quaternion's normalization
  rcases hp : Vec3.ofList? position with _ | p <;> rcases hv : Vec3.ofList? velocity with _ | v <;>
    rcases hw : Vec3.ofList? angularVelocity with _ | w <;>
    simp only [hp, hv, hw] at h <;>
    split at h <;> obtain ⟨q', hn, h⟩ := Outcome.bind_eq_ok h <;> cases h
  all_goals
    refine ⟨Vec3.toList_of_ofList? hp, Vec3.toList_of_ofList? hv, Vec3.toList_of_ofList? hw, rfl,
      rfl, rfl, q, hq, ?_⟩
    simp_all

/-- What a state rebuilt from a flat array `y` at time `t` holds: the entries of `y` in the
order of `toArray`, the inertia and the time it was given, and a quaternion of length at
least `10⁻¹²`, normalized when it is finite. -/
structure Rebuilt (y : List Float) (inertia : Mat3) (t : Float) (s : SatState) : Prop where
  position : s.position.toList = y.take 3
  velocity : s.velocity.toList = (y.drop 3).take 3
  angularVelocity : s.angularVelocity.toList = (y.drop 10).take 3
  mass : y[13]? = some s.mass
  inertia : s.inertia = inertia
  time : s.time = t
  quaternion : ∃ q, q.toList = (y.drop 6).take 4 ∧ ¬ q.norm < minQuaternionNorm ∧
    (if q.isFinite then Quat.normalize q else pure q) = .ok s.quaternion

theorem ofFlat_rebuilt {y : List Float} {inertia : Mat3} {t : Float} {s : SatState}
    (h : ofFlat y inertia t = .ok s) : Rebuilt y inertia t s := by
  unfold ofFlat at h
  split_ifs at h with hn
  unfold ofArray at h
  split at h
  · next mass hmass =>
    obtain ⟨hp, hv, hw, hm, ht, hi, q, hq, hs⟩ := make_spec h
    refine ⟨by simpa using hp, hv, hw, hm ▸ hmass, ?_, ht, q, Quat.toList_of_ofList hq, ?_, hs⟩
    · simpa using hi.symm
    · rw [Quat.norm, Quat.toList_of_ofList hq]; exact hn
  · cases h

theorem toArray_mass (s : SatState) : s.toArray[13]? = some s.mass := rfl

theorem mass_mem_toArray (s : SatState) : s.mass ∈ s.toArray := by simp [toArray]

theorem isFinite_of_mem_toArray {s : SatState} (h : s.isFinite = true) {x : Float}
    (hx : x ∈ s.toArray) : x.isFinite = true :=
  List.all_eq_true.1 h x hx

theorem quaternion_isFinite {s : SatState} (h : s.isFinite = true) : s.quaternion.isFinite = true := by
  have hq : ∀ x ∈ s.quaternion.toList, x.isFinite = true :=
    fun x hx => isFinite_of_mem_toArray h (by simp only [toArray, List.mem_append]; tauto)
  simp only [Quat.toList, List.mem_cons, List.not_mem_nil, or_false, forall_eq_or_imp,
    forall_eq] at hq
  simp [Quat.isFinite, hq]

end SatState

namespace Propagator

variable (p : Propagator) (tEnd : Float)

theorem checkState_eq_ok {s : SatState} (h : p.checkState s = .ok ()) :
    s.isFinite = true ∧ ¬ s.radius > p.limits.maxPositionNorm := by
  unfold checkState at h
  by_cases hf : s.isFinite = true
  · refine ⟨hf, fun hr => ?_⟩
    simp only [hf, hr] at h
    cases h
  · simp only [hf] at h
    cases h

/-- A rebuilt state holds the entries of the trial's outcome at the time it lands on, and
passed the checks. -/
theorem rebuild_ok {g : Progress} {o : StepOutcome} {h : Float} {s : SatState}
    (hr : p.rebuild tEnd g o h = .ok s) :
    SatState.Rebuilt o.state g.state.inertia (landing tEnd g.state.time h) s ∧
      s.isFinite = true ∧ ¬ s.radius > p.limits.maxPositionNorm := by
  unfold rebuild at hr
  obtain ⟨s', hs', hr⟩ := Outcome.bind_eq_ok hr
  obtain ⟨_, hc, hr⟩ := Outcome.bind_eq_ok hr
  cases hr
  exact ⟨SatState.ofFlat_rebuilt hs', p.checkState_eq_ok hc⟩

/-- The outcome the retry loop of a step returns: a trial not refused, of the first step
halved once for each refusal before it, and the count of those refusals, fewer than the
trials allowed. -/
theorem trials_ok {g : Progress} {o : StepOutcome} {h : Float} {k : Nat}
    (ht : p.trials tEnd g = .ok (o, h, k)) :
    p.integrator.attempt (rate g.dynamics g.state.inertia g.control) g.state.time
        g.state.toArray h = .ok o ∧
      h = halved (firstTrial tEnd g) k ∧
      k = p.integrator.refusals (rate g.dynamics g.state.inertia g.control) g.state.time
        g.state.toArray (firstTrial tEnd g) (p.limits.maxRejections.toNat + 1) ∧
      k < p.limits.maxRejections.toNat + 1 := by
  unfold trials at ht
  rw [attemptHalving_eq] at ht
  split_ifs at ht with hk
  obtain ⟨o', ha, heq⟩ := Outcome.map_eq_ok ht
  cases heq
  exact ⟨ha, rfl, rfl, hk⟩

end Propagator

namespace FlatState

theorem mem_addScaled {y d : List Float} {a x : Float} (hx : x ∈ addScaled y a d) :
    ∃ u v, x = u + a * v := by
  obtain ⟨i, hi⟩ := List.mem_iff_getElem?.1 hx
  obtain ⟨u, v, -, -, rfl⟩ := List.getElem?_zipWith_eq_some.1 hi
  exact ⟨u, v, rfl⟩

/-- Every entry of a step scaled by a NaN or an infinity is NaN or infinite. -/
theorem addScaled_not_finite {y d : List Float} {a : Float} (ha : a.isFinite = false) :
    ∀ x ∈ addScaled y a d, x.isFinite = false := by
  intro x hx
  obtain ⟨u, v, rfl⟩ := mem_addScaled hx
  exact Binary64.isFinite_add_right u (Binary64.isFinite_mul_left v ha)

end FlatState

namespace Integrator

/-- A trial of NaN or infinite size gives a state with no finite entry, or no state. -/
theorem attempt_state_not_finite {i : Integrator} {f : RateFunction} {t h : Float}
    {y : List Float} {o : StepOutcome} (hok : i.attempt f t y h = .ok o)
    (hh : h.isFinite = false) : ∀ x ∈ o.state, x.isFinite = false := by
  cases i with
  | rungeKutta stepSize =>
    simp only [attempt] at hok
    obtain ⟨_, -, hok⟩ := Outcome.bind_eq_ok hok
    obtain ⟨_, -, hok⟩ := Outcome.bind_eq_ok hok
    obtain ⟨_, -, hok⟩ := Outcome.bind_eq_ok hok
    obtain ⟨_, -, hok⟩ := Outcome.bind_eq_ok hok
    cases hok
    exact FlatState.addScaled_not_finite (Binary64.isFinite_div_left 6 hh)
  | dormandPrince c =>
    simp only [attempt] at hok
    obtain ⟨_, -, hok⟩ := Outcome.bind_eq_ok hok
    obtain ⟨_, -, hok⟩ := Outcome.bind_eq_ok hok
    split at hok
    · cases hok
    · cases hok
      exact FlatState.addScaled_not_finite hh

end Integrator

namespace Propagator

variable (p : Propagator) (tEnd : Float)

/-- The step of an accepted state is finite: a NaN or infinite step leaves no finite entry,
and the rebuilt state has a finite mass taken from one. -/
theorem accepted_step_finite {g : Progress} {o : StepOutcome} {h : Float} {k : Nat}
    {s : SatState} (ht : p.trials tEnd g = .ok (o, h, k)) (hr : p.rebuild tEnd g o h = .ok s) :
    h.isFinite = true := by
  obtain ⟨hreb, hfin, -⟩ := p.rebuild_ok tEnd hr
  have hmass : s.mass.isFinite = true :=
    SatState.isFinite_of_mem_toArray hfin (SatState.mass_mem_toArray s)
  by_contra hh
  have hall := Integrator.attempt_state_not_finite (p.trials_ok tEnd ht).1 (by simpa using hh)
  have := hall s.mass (List.mem_of_getElem? hreb.mass)
  rw [hmass] at this
  exact Bool.noConfusion this

end Propagator

end Spacecraft
