import Mathlib
import Spacecraft.Proofs.Binary64.Sign
import Spacecraft.Proofs.Control.Phases
import Spacecraft.Proofs.Propagation.Summary

/-!
# What a law state holds along a run

Every law state a run reaches fits the law as it stands (`TorqueLaw.Sound`): guidance memory
is present exactly when the law has guidance; sensor memory is present exactly when the active
policy is estimating, so the magnetometer-driven detumbler always commands from a held dipole;
and the integral is zero unless the active policy is an attitude controller with a non-zero
integral gain, and within that controller's limit, where it has a non-negative one, in every
component that is a number. Besides, the time of a law state is the time of the advance that
made it, and its phase began no later, when the times of the run, from its start on, never
decrease.

The qualifications are needed. An integral step of infinite length (from a start time near
`-10³⁰⁸` to one near `10³⁰⁸`) over a zero attitude error makes every component NaN, which a
clip does not remove; and an advance to a time before the start leaves the phase beginning
after the law state's time (`integral_nan_and_phase_after_time`).
-/

namespace Spacecraft

open Tracked

/-! ### Limits on the integral -/

open Binary64 in
/-- Clamping into `[-l, l]` for `0 ≤ l` gives NaN or a value at most `l` in size. -/
theorem clamp_isNaN_or_abs_le (x : Float) {l : Float} (hl : 0 ≤ l) :
    (clamp x (-l) l).isNaN = true ∨ (clamp x (-l) l).abs ≤ l := by
  have hln : view l ≠ .notANumber := ne_nan_of_le_right hl
  have hnln : view (-l) ≠ .notANumber := by
    rwa [view_neg, Ne, neg_eq_nan_iff]
  have hlrank : 0 ≤ rank (view l) := (nonneg_iff_rank hln).1 hl
  -- `-l ≤ l`, so the two bounds never cross
  have hneg : -l ≤ l := by
    rw [le_iff_rank hnln hln, view_neg, rank_neg]
    omega
  cases hx : x.isNaN with
  | true =>
    left
    rwa [clamp_isNaN x hneg]
  | false =>
    right
    have hin := clamp_mem hx hneg
    exact (abs_le_iff (ne_nan_of_le_right hin.1) hln).2 hin

namespace Vec3

/-- Every component of the vector is NaN or at most `l` in size. -/
def WithinLimit (l : Float) (v : Vec3) : Prop := ∀ c ∈ v.toList, c.isNaN = true ∨ c.abs ≤ l

theorem withinLimit_zero {l : Float} (hl : 0 ≤ l) : zero.WithinLimit l := by
  intro c hc
  simp only [zero, toList, List.mem_cons, List.not_mem_nil, or_false, or_self] at hc
  subst hc
  right
  exact hl

theorem withinLimit_clip (v : Vec3) {l : Float} (hl : 0 ≤ l) : (v.clip (-l) l).WithinLimit l := by
  intro c hc
  simp only [clip, map, toList, List.mem_cons, List.not_mem_nil, or_false] at hc
  rcases hc with rfl | rfl | rfl <;> exact clamp_isNaN_or_abs_le _ hl

end Vec3

namespace Policy

/-- Restarting a policy keeps its kind, so only an attitude controller restarts to one. -/
theorem eq_pd_of_reset_eq {p : Policy} {g : PdGains} (h : p.reset = .pd g) : p = .pd g := by
  cases p <;> first | exact h | cases h

theorem isEstimating_eq_of_reset {p p' : Policy} (hr : p'.reset = p.reset) :
    p'.isEstimating = p.isEstimating := by
  rw [← isEstimating_reset p', hr, isEstimating_reset]

/-- What the integral of a law state may be under the active policy `p`: zero unless `p` is an
attitude controller with a non-zero integral gain, and within the controller's limit, where it
has a non-negative one, in every component that is a number. -/
structure IntegralFits (p : Policy) (integral : Vec3) : Prop where
  zero_unless : integral = Vec3.zero ∨ ∃ g, p = .pd g ∧ (g.ki == 0.0) = false
  within : ∀ g l, p = .pd g → g.integralLimit = some l → 0 ≤ l → integral.WithinLimit l

theorem integralFits_zero (p : Policy) : IntegralFits p Vec3.zero :=
  ⟨.inl rfl, fun _ _ _ _ hl => Vec3.withinLimit_zero hl⟩

/-- Whether an integral fits a policy depends on the policy only up to its restart. -/
theorem IntegralFits.of_reset {p p' : Policy} {integral : Vec3} (h : IntegralFits p integral)
    (hr : p'.reset = p.reset) : IntegralFits p' integral := by
  have hpd : ∀ g, p' = .pd g → p = .pd g := fun g hg =>
    eq_pd_of_reset_eq (by rw [← hr, hg]; rfl)
  refine ⟨h.zero_unless.imp_right fun ⟨g, hg, hki⟩ => ⟨g, ?_, hki⟩,
    fun g l hg => h.within g l (hpd g hg)⟩
  exact eq_pd_of_reset_eq (by rw [hr, hg]; rfl)

/-- An integral step keeps the integral fitting its policy: only an attitude controller with a
non-zero gain moves it, and its limit clips what it moves to. -/
theorem IntegralFits.updateIntegral {p : Policy} {dt : Float} {s : SatState}
    {c : Option Command} {integral integral' : Vec3} (h : IntegralFits p integral)
    (hu : p.updateIntegral dt s c integral = .ok integral') : IntegralFits p integral' := by
  cases p with
  | pd g =>
    simp only [Policy.updateIntegral, PdGains.updateIntegral] at hu
    split_ifs at hu with hstill
    · cases hu
      exact h
    · -- the integral moves, so the gain is not zero, and a limit clips it
      obtain ⟨e, -, hu⟩ := Outcome.bind_eq_ok hu
      cases hu
      have hki : (g.ki == 0.0) = false := by
        simp only [Bool.or_eq_true, not_or] at hstill
        simpa using hstill.1
      refine ⟨.inr ⟨g, rfl, hki⟩, fun g' l hg hl h0 => ?_⟩
      cases hg
      simp only [hl]
      exact Vec3.withinLimit_clip _ h0
  | _ =>
    cases hu
    exact h

end Policy

namespace TorqueLaw

/-! ### What a run keeps of the policies -/

/-- A law that a run reached has, at every phase, a policy of the same kind, gains and sensor
settings as the law it started from. -/
theorem policyAt_of_skeleton {law law' : TorqueLaw} (h : law'.skeleton = law.skeleton) {i : Nat}
    {p : Policy} (hp : law.policyAt i = .ok p) :
    ∃ p', law'.policyAt i = .ok p' ∧ p'.reset = p.reset := by
  have hi : (law'.phases[i]?).map Phase.restart = (law.phases[i]?).map Phase.restart := by
    simpa [skeleton] using congrArg (·[i]?) (congrArg TorqueLaw.phases h)
  unfold policyAt at hp ⊢
  cases hl : law.phases[i]? with
  | none => simp [hl] at hp
  | some ph =>
    simp only [hl, pure, Except.pure, Except.ok.injEq] at hp
    subst hp
    cases hl' : law'.phases[i]? with
    | none => simp [hl, hl'] at hi
    | some ph' =>
      simp only [hl, hl', Option.map_some, Option.some.injEq] at hi
      exact ⟨ph'.policy, rfl, congrArg Phase.policy hi⟩

theorem isSome_guidance_of_skeleton {law law' : TorqueLaw} (h : law'.skeleton = law.skeleton) :
    law'.guidance.isSome = law.guidance.isSome := by
  simpa [skeleton] using congrArg (fun l => l.guidance.isSome) h

/-- The sensor memory a phase starts with is present exactly for an estimating policy. -/
theorem isSome_of_estimateAt {law : TorqueLaw} {i : Nat} {s : SatState}
    {e : Option FieldRateEstimate} {p : Policy} (he : (runFrom (estimateAt i s) law).1 = .ok e)
    (hp : law.policyAt i = .ok p) : e.isSome = p.isEstimating := by
  unfold policyAt at hp
  cases hl : law.phases[i]? with
  | none => simp [hl] at hp
  | some ph =>
    simp only [hl, pure, Except.pure, Except.ok.injEq] at hp
    subst hp
    simp only [estimateAt, onPhase, runFrom_focus, hl, Option.map_some, Option.getD_some] at he
    exact Policy.initialEstimate_isSome he

theorem exists_policyAt {law : TorqueLaw} {i : Nat} (hi : i < law.phases.length) :
    ∃ p, law.policyAt i = .ok p :=
  ⟨law.phases[i].policy, by simp [policyAt, List.getElem?_eq_getElem hi]; rfl⟩

/-! ### The invariant of a run -/

/-- What a law state of a run holds, with the law as it stands: guidance memory exactly when
the law has guidance, and, for the policy of the active phase, sensor memory exactly when that
policy is estimating and an integral that fits it. -/
structure Sound (law : TorqueLaw) (ls : LawState) : Prop where
  guidance : ls.guidance.isSome = law.guidance.isSome
  active : ∃ p, law.policyAt ls.phaseIndex = .ok p ∧ ls.estimate.isSome = p.isEstimating ∧
    p.IntegralFits ls.integral

/-- Soundness reads the law only up to its skeleton. -/
theorem Sound.of_skeleton {law law' : TorqueLaw} {ls : LawState} (hs : Sound law ls)
    (h : law'.skeleton = law.skeleton) : Sound law' ls := by
  obtain ⟨p, hp, hpe, hpi⟩ := hs.active
  obtain ⟨p', hp', hr⟩ := policyAt_of_skeleton h hp
  refine ⟨hs.guidance.trans (isSome_guidance_of_skeleton h).symm, p', hp', ?_, hpi.of_reset hr⟩
  rw [hpe, Policy.isEstimating_eq_of_reset hr]

/-- The law state a run starts from is sound. -/
theorem sound_initialState {s : SatState} {law law' : TorqueLaw} {ls : LawState} (hv : law.Valid)
    (h : runFrom (initialState s) law = (.ok ls, law')) : Sound law' ls := by
  obtain ⟨memory, estimate, hest, hmem, rfl⟩ := initialState_eq_ok h
  obtain ⟨p, hp⟩ := exists_policyAt (List.length_pos_iff.2 hv.phases_ne_nil)
  refine Sound.of_skeleton ⟨hmem, p, hp, ?_, Policy.integralFits_zero p⟩
    ((keeps_estimateAt 0 s).eq_of_runFrom hest)
  exact isSome_of_estimateAt (congrArg Prod.fst hest) hp

/-- An accepted advance keeps the law state sound. -/
theorem Sound.advance {t : Float} {s : SatState} {b : Body} {ls ls' : LawState}
    {law law' : TorqueLaw} (hs : Sound law ls) (hv : law.Valid)
    (h : runFrom (advance t s b ls) law = (.ok ls', law')) : Sound law' ls' := by
  obtain ⟨ref, policy, integral, memory, estimate, -, hpolicy, hintegral, hmemory, hestimate,
    hend⟩ := advance_eq_ok hv h
  obtain ⟨p, hp, hpe, hpi⟩ := hs.active
  rw [hp, Except.ok.injEq] at hpolicy
  subst hpolicy
  have hguidance : memory.isSome = law.guidance.isSome := hmemory.trans hs.guidance
  refine Sound.of_skeleton ?_ ((keeps_advance t s b ls).eq_of_runFrom h)
  cases hf : law.firing t s ls ref with
  | none =>
    -- the law stays in its phase: the integral takes the policy's step, the memory stays
    rw [hf] at hend
    subst hend
    exact ⟨hguidance, p, hp, hestimate.trans hpe, hpi.updateIntegral hintegral⟩
  | some row =>
    -- a new phase starts with a zero integral and its own first sensor memory
    rw [hf] at hend
    obtain ⟨e, he, rfl⟩ := hend
    obtain ⟨q, hq⟩ := exists_policyAt (lt_target_of_firing hv hf).2
    exact ⟨hguidance, q, hq, isSome_of_estimateAt he hq, Policy.integralFits_zero q⟩

/-- Every law state a run reaches is sound. -/
theorem Trace.sound {law0 law : TorqueLaw} {s0 : SatState} {states : List LawState}
    (hv : law0.Valid) (h : Trace law0 s0 law states) : ∀ ls ∈ states.head?, Sound law ls := by
  induction h with
  | start h => simpa using sound_initialState hv h
  | advanced hrun h ih => simpa using (ih _ rfl).advance (hrun.valid hv) h
  | failed hrun h ih =>
    simpa using (ih _ rfl).of_skeleton ((keeps_advance _ _ _ _).eq_of_runFrom h)

/-! ### Times -/

/-- An accepted advance stamps the law state with its time, and the phase it is in began
then or when it began before. -/
theorem time_advance {t : Float} {s : SatState} {b : Body} {ls ls' : LawState}
    {law law' : TorqueLaw} (hv : law.Valid) (h : runFrom (advance t s b ls) law = (.ok ls', law')) :
    ls'.time = t ∧ (ls'.phaseStart = ls.phaseStart ∨ ls'.phaseStart = t) := by
  obtain ⟨ref, _, _, _, _, -, -, -, -, -, hend⟩ := advance_eq_ok hv h
  cases hf : law.firing t s ls ref with
  | none =>
    rw [hf] at hend
    subst hend
    exact ⟨rfl, .inl rfl⟩
  | some row =>
    rw [hf] at hend
    obtain ⟨e, -, rfl⟩ := hend
    exact ⟨rfl, .inr rfl⟩

/-- When the run starts at a number and its times never decrease, every phase begins no later
than the law state's time. -/
theorem Trace.phaseStart_le_time {law0 law : TorqueLaw} {s0 : SatState} {states : List LawState}
    (hv : law0.Valid) (h0 : s0.time.isNaN = false) (h : Trace law0 s0 law states) :
    List.IsChain (fun l l' => l'.time ≤ l.time) states →
      ∀ ls ∈ states.head?, ls.phaseStart ≤ ls.time := by
  induction h with
  | start h =>
    intro _ ls hls
    obtain ⟨_, _, -, -, rfl⟩ := initialState_eq_ok h
    simp only [List.head?_cons, Option.mem_def, Option.some.injEq] at hls
    subst hls
    exact Binary64.le_refl_of_ne_nan (Binary64.isNaN_eq_false_iff.1 h0)
  | @advanced law _ ls ls' _ t _ _ hrun h ih =>
    intro hchain l hl
    simp only [List.head?_cons, Option.mem_def, Option.some.injEq] at hl
    subst hl
    rw [List.isChain_cons_cons] at hchain
    have hprev := ih hchain.2 ls rfl
    obtain ⟨htime, hstart⟩ := time_advance (hrun.valid hv) h
    rw [htime] at hchain ⊢
    rcases hstart with hstart | hstart <;> rw [hstart]
    · exact Binary64.float_le_trans hprev hchain.1
    · exact Binary64.le_refl_of_ne_nan (Binary64.ne_nan_of_le_right hchain.1)
  | failed _ _ ih => exact ih

/-! ### Law states along a run -/

/-- Every law state that a run of a law its constructor accepts reaches fits the law as it
stands. Guidance memory is present exactly when the law has guidance. For the policy of the
active phase, sensor memory is present exactly when that policy is estimating; the integral is
zero unless the policy is an attitude controller with a non-zero integral gain, and within the
controller's limit, where it has a non-negative one, in every component that is a number. An
advance stamps the law state with its time, and when the run starts at a number and its times
never decrease, the active phase began no later than the law state's time. -/
theorem law_state_fits {phases : List Phase} {transitions : List Transition}
    {guidance : Option Guidance} {name : String} {law0 : TorqueLaw}
    (hmake : make phases transitions guidance name = .ok law0) (s0 : SatState) :
    ∀ law ls rest, Trace law0 s0 law (ls :: rest) →
      ls.guidance.isSome = law.guidance.isSome ∧
      (∃ p, law.policyAt ls.phaseIndex = .ok p ∧ ls.estimate.isSome = p.isEstimating ∧
        (ls.integral = Vec3.zero ∨ ∃ g, p = .pd g ∧ (g.ki == 0.0) = false) ∧
        ∀ g l, p = .pd g → g.integralLimit = some l → 0 ≤ l →
          ∀ c ∈ ls.integral.toList, c.isNaN = true ∨ c.abs ≤ l) ∧
      (∀ t s b ls' law', runFrom (advance t s b ls) law = (.ok ls', law') → ls'.time = t) ∧
      (s0.time.isNaN = false → List.IsChain (fun l l' => l'.time ≤ l.time) (ls :: rest) →
        ls.phaseStart ≤ ls.time) := by
  obtain ⟨rfl, hv⟩ := make_eq_ok.1 hmake
  intro law ls rest hrun
  have hsound := hrun.sound hv ls rfl
  obtain ⟨p, hp, hpe, hpi⟩ := hsound.active
  exact ⟨hsound.guidance, ⟨p, hp, hpe, hpi.zero_unless, hpi.within⟩,
    fun t s b ls' law' h => (time_advance (hrun.valid hv) h).1,
    fun h0 hchain => hrun.phaseStart_le_time hv h0 hchain ls rfl⟩

/-- One phase of attitude control with a unit integral gain and a unit limit on the integral. -/
def integratingHold : TorqueLaw :=
  { phases := [⟨"hold", .pd { ki := 1.0, integralLimit := some 1.0 }⟩], name := "hold" }

/-- The sample state at rest, at time `t`. -/
def restingAt (t : Float) : SatState := { Propagator.sampleState with time := t }

/-- The integrating hold, run from rest at time zero. -/
theorem integrating_hold_fits :
    make integratingHold.phases [] none "hold" = .ok integratingHold ∧
    ∀ law ls rest, Trace integratingHold (restingAt 0.0) law (ls :: rest) →
      ls.guidance.isSome = law.guidance.isSome ∧
      (∃ p, law.policyAt ls.phaseIndex = .ok p ∧ ls.estimate.isSome = p.isEstimating ∧
        (ls.integral = Vec3.zero ∨ ∃ g, p = .pd g ∧ (g.ki == 0.0) = false) ∧
        ∀ g l, p = .pd g → g.integralLimit = some l → 0 ≤ l →
          ∀ c ∈ ls.integral.toList, c.isNaN = true ∨ c.abs ≤ l) ∧
      (∀ t s b ls' law', runFrom (advance t s b ls) law = (.ok ls', law') → ls'.time = t) ∧
      ((restingAt 0.0).time.isNaN = false →
        List.IsChain (fun l l' => l'.time ≤ l.time) (ls :: rest) → ls.phaseStart ≤ ls.time) := by
  have hmake : make integratingHold.phases [] none "hold" = .ok integratingHold := rfl
  exact ⟨hmake, law_state_fits hmake (restingAt 0.0)⟩

/-- The qualifications are needed. An integral step of infinite length, from `-10³⁰⁸` to
`10³⁰⁸` at rest, multiplies a zero error by an infinite interval and leaves every component of
the integral NaN, none at most the limit in size; and a single advance from time 5 back to
time 3 leaves the phase beginning after the law state's time. -/
theorem integral_nan_and_phase_after_time :
    ((runFrom (initialState (restingAt (-1.0e308))) integratingHold).1.bind fun ls =>
        (runFrom (advance 1.0e308 (restingAt 1.0e308) default ls) integratingHold).1).toOption.map
      (fun ls => ls.integral.toList.map fun c => decide (c.abs ≤ 1.0)) = some [false, false, false] ∧
    ((runFrom (initialState (restingAt 5.0)) integratingHold).1.bind fun ls =>
        (runFrom (advance 3.0 (restingAt 3.0) default ls) integratingHold).1).toOption.map
      (fun ls => decide (ls.phaseStart ≤ ls.time)) = some false := by
  decide +kernel

end TorqueLaw

end Spacecraft
