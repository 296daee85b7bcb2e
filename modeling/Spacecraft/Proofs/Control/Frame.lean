import Mathlib
import Spacecraft.Proofs.Tracked
import Spacecraft.Control.Law

/-!
# What the computations of a torque law leave alone

A torque law carries sensors, the magnetometer of a magnetometer-driven detumbler and the
gyrometer of a spin-rate condition, each with a seeded generator that a reading moves on; and
commanded guidance may hold a target waiting to be latched. The computations of a law (its
initial state, its advance, and everything they call) move those generators and latch that
target, and nothing else: its phases, its transition table and its name stay, every sensor
keeps its noise and seed, every policy its kind and gains.

`TorqueLaw.skeleton` forgets exactly what they may change, every generator back at its seed
and no target waiting, and every computation of a law keeps it, whether it succeeds or fails
(`keeps_initialState`, `keeps_advance`). Guidance with no target waiting comes out of an
advance as it went in (`runFrom_guidanceStep`).
-/

namespace Spacecraft

open Tracked

/-- An update of the `i`-th entry of a list is invisible to a view that does not see it. -/
theorem List.map_mapIdx_update {α β : Type} (f : α → β) (u : α → α) (l : List α) (i : Nat)
    (h : ∀ a ∈ l[i]?, f (u a) = f a) :
    (l.mapIdx fun j a => if j = i then u a else a).map f = l.map f := by
  apply List.ext_getElem?
  intro j
  simp only [List.getElem?_map, List.getElem?_mapIdx]
  by_cases hj : j = i
  · subst hj
    cases ha : l[j]? with
    | none => rfl
    | some a => simpa using h a ha
  · cases l[j]? <;> simp [hj]

namespace Guidance

/-- The guidance with no commanded target waiting. -/
def withoutPending : Guidance → Guidance
  | .commanded _ => .commanded none
  | g => g

/-- Whether commanded guidance holds a target waiting to be latched. -/
def awaiting : Guidance → Bool
  | .commanded (some _) => true
  | _ => false

theorem withoutPending_eq_self {g : Guidance} (h : g.awaiting = false) : g.withoutPending = g := by
  cases g with
  | automatic => rfl
  | commanded c =>
    cases c with
    | none => rfl
    | some c => simp [awaiting] at h

/-- Advancing guidance latches its waiting target, if any, and changes nothing else. -/
theorem advance_withoutPending {g g' : Guidance} {t : Float} {s : SatState}
    {m m' : GuidanceMemory} (h : g.advance t s m = .ok (m', g')) :
    g'.withoutPending = g.withoutPending ∧ g'.awaiting = false := by
  rcases g with _ | c
  · simp only [advance] at h
    cases h
    exact ⟨rfl, rfl⟩
  · rcases c with _ | c
    · simp only [advance] at h
      split_ifs at h
      · cases h; exact ⟨rfl, rfl⟩
      · obtain ⟨_, -, h⟩ := Outcome.bind_eq_ok h
        cases h; exact ⟨rfl, rfl⟩
    · simp only [advance] at h
      cases h
      exact ⟨rfl, rfl⟩

end Guidance

namespace Sensor

/-- A reading draws its noise, and moves the generator on, before it looks at the true value;
nothing else of the sensor changes. -/
theorem runFrom_read (truth : Outcome Vec3) (s : Sensor) :
    runFrom (read truth) s =
      match s.gen.uniform3 (-s.noise) s.noise with
      | .error e => (.error e, s)
      | .ok (noise, gen) => (truth.map (· + noise), { s with gen }) := by
  simp only [read, runFrom_get_bind, runFrom_lift_bind]
  rcases s.gen.uniform3 (-s.noise) s.noise with e | ⟨noise, gen⟩
  · rfl
  · simp only [runFrom_bind, runFrom_set]
    cases truth <;> rfl

theorem keeps_read (truth : Outcome Vec3) : Keeps reset (read truth) := by
  intro s
  rw [runFrom_read]
  rcases s.gen.uniform3 (-s.noise) s.noise with e | ⟨noise, gen⟩ <;> rfl

end Sensor

namespace FieldRateSensing

theorem keeps_sample (t : Float) (s : SatState) : Keeps reset (sample t s) :=
  keeps_get_bind fun r => by
    simp only [runFrom_focus, reset]
    rw [Sensor.keeps_read _ r.magnetometer]

theorem keeps_initialEstimate (t : Float) (s : SatState) : Keeps reset (initialEstimate t s) :=
  (keeps_sample t s).bind fun _ => keeps_pure _

theorem keeps_updateEstimate (t : Float) (s : SatState) (b : Body) (e : FieldRateEstimate) :
    Keeps reset (updateEstimate t s b e) :=
  keeps_get_bind fun r => by
    dsimp only
    split
    · rfl
    · exact ((keeps_sample t s).bind fun _ => keeps_pure _) r

end FieldRateSensing

namespace Policy

/-- A restarted policy has the kind of the policy it restarts. -/
@[simp] theorem isEstimating_reset (p : Policy) : p.reset.isEstimating = p.isEstimating := by
  cases p <;> simp [reset, isEstimating]

theorem keeps_initialEstimate (t : Float) (s : SatState) : Keeps reset (initialEstimate t s) :=
  keeps_get_bind fun p => by
    cases p with
    | sensedBdot r =>
      simp only [runFrom_focus, snd_runFrom_map, reset]
      rw [FieldRateSensing.keeps_initialEstimate t s r]
    | _ => rfl

theorem keeps_updateEstimate (t : Float) (s : SatState) (b : Body) (e : FieldRateEstimate) :
    Keeps reset (updateEstimate t s b e) :=
  keeps_get_bind fun p => by
    cases p with
    | sensedBdot r =>
      simp only [runFrom_focus, reset]
      rw [FieldRateSensing.keeps_updateEstimate t s b e r]
    | _ => rfl

/-- The first sensor memory of a policy is present exactly for an estimating policy. -/
theorem initialEstimate_isSome {t : Float} {s : SatState} {p : Policy}
    {e : Option FieldRateEstimate} (h : (runFrom (initialEstimate t s) p).1 = .ok e) :
    e.isSome = p.isEstimating := by
  cases p with
  | sensedBdot r =>
    simp only [initialEstimate, runFrom_get_bind, fst_runFrom_map, runFrom_focus] at h
    obtain ⟨e', -, rfl⟩ := Outcome.map_eq_ok h
    rfl
  | _ => cases h; rfl

end Policy

namespace Condition

theorem keeps_isMet (t : Float) (s : SatState) (ls : LawState) (ref : Option Command) :
    Keeps reset (isMet t s ls ref) :=
  keeps_get_bind fun c => by
    cases c with
    | spinRateBelow threshold g =>
      cases g with
      | none => rfl
      | some g =>
        simp only [runFrom_focus, reset]
        rw [((Sensor.keeps_read _).bind fun _ => keeps_pure _) g]
    | attitudeErrorBelow threshold =>
      cases ref with
      | none => rfl
      | some c => exact ((keeps_lift _).bind fun _ => keeps_pure _) _
    | _ => rfl

end Condition

/-- A restarted phase. -/
def Phase.restart (ph : Phase) : Phase := { ph with policy := ph.policy.reset }

/-- A restarted transition row. -/
def Transition.restart (row : Transition) : Transition :=
  { row with condition := row.condition.reset }

namespace TorqueLaw

/-- A law with every sensor at its seed and no commanded target waiting: what no computation
of the law changes. -/
def skeleton (law : TorqueLaw) : TorqueLaw :=
  { law with phases := law.phases.map Phase.restart,
             transitions := law.transitions.map Transition.restart,
             guidance := law.guidance.map Guidance.withoutPending }

theorem skeleton_congr {law law' : TorqueLaw} (hp : law'.phases.map Phase.restart =
    law.phases.map Phase.restart) (ht : law'.transitions.map Transition.restart =
    law.transitions.map Transition.restart)
    (hg : law'.guidance.map Guidance.withoutPending = law.guidance.map Guidance.withoutPending)
    (hn : law'.name = law.name) : law'.skeleton = law.skeleton := by
  rw [skeleton, skeleton, hp, ht, hg, hn]

/-- A computation on the policy of one phase that keeps the policy's restart keeps the law's
skeleton. -/
theorem keeps_onPhase {α : Type} (i : Nat) {m : Tracked Policy α} (hm : Keeps Policy.reset m) :
    Keeps skeleton (onPhase i m) :=
  fun law => skeleton_congr (List.map_mapIdx_update _ _ _ _ fun ph hph => by
    simp only [Option.mem_def] at hph
    simp only [Phase.restart, hph, Option.map_some, Option.getD_some]
    exact congrArg _ (hm ph.policy)) rfl rfl rfl

/-- A computation on the condition of one row that keeps the condition's restart keeps the
law's skeleton. -/
theorem keeps_onTransition {α : Type} (j : Nat) {m : Tracked Condition α}
    (hm : Keeps Condition.reset m) : Keeps skeleton (onTransition j m) :=
  fun law => skeleton_congr rfl (List.map_mapIdx_update _ _ _ _ fun row hrow => by
    simp only [Option.mem_def] at hrow
    simp only [Transition.restart, hrow, Option.map_some, Option.getD_some]
    exact congrArg (fun c => Transition.mk row.source c row.target) (hm row.condition)) rfl rfl

theorem keeps_estimateAt (i : Nat) (s : SatState) : Keeps skeleton (estimateAt i s) :=
  keeps_onPhase i (Policy.keeps_initialEstimate s.time s)

/-- Setting up the law state of a run keeps what the first estimate of the first phase keeps:
the guidance memory is read, never written. -/
theorem keeps_initialState_of {γ : Type} {f : TorqueLaw → γ} {s : SatState}
    (hestimate : Keeps f (estimateAt 0 s)) : Keeps f (initialState s) :=
  keeps_get_bind fun law => by
    have hrest : ∀ k : Option FieldRateEstimate → LawState,
        Keeps f (estimateAt 0 s >>= fun estimate => pure (k estimate)) :=
      fun _ => hestimate.bind fun _ => keeps_pure _
    dsimp only
    split
    · exact ((keeps_pure _).bind fun _ => hrest _) law
    · exact (((keeps_lift _).map _).bind fun _ => hrest _) law

/-- Setting up the law state of a run moves at most the sensor of the first phase. -/
theorem keeps_initialState (s : SatState) : Keeps skeleton (initialState s) :=
  keeps_initialState_of (keeps_estimateAt 0 s)

/-- Firing the transition table keeps what reading a condition and setting up the sensor
memory of a phase keep. -/
theorem keeps_fire_of {γ : Type} {f : TorqueLaw → γ}
    (hcondition : ∀ j t s ls ref, Keeps f (onTransition j (Condition.isMet t s ls ref)))
    (hestimate : ∀ i s, Keeps f (estimateAt i s)) (t : Float) (s : SatState) (ls : LawState)
    (ref : Option Command) (advanced : LawState) (rows : List (Nat × Transition)) :
    Keeps f (fire t s ls ref advanced rows) := by
  induction rows with
  | nil => exact keeps_pure _
  | cons row rows ih =>
    obtain ⟨j, row⟩ := row
    simp only [fire]
    split
    · exact ih
    · refine (hcondition j t s ls ref).bind fun met => ?_
      split
      · exact (hestimate _ s).bind fun _ => keeps_pure _
      · exact ih

/-- Firing the transition table keeps the skeleton: it only reads conditions and sets up the
sensor memory of the phase it enters. -/
theorem keeps_fire (t : Float) (s : SatState) (ls : LawState) (ref : Option Command)
    (advanced : LawState) (rows : List (Nat × Transition)) :
    Keeps skeleton (fire t s ls ref advanced rows) :=
  keeps_fire_of (fun j t s ls ref => keeps_onTransition j (Condition.keeps_isMet t s ls ref))
    keeps_estimateAt t s ls ref advanced rows

/-- Whether the law's guidance holds a commanded target waiting to be latched. -/
def awaiting (law : TorqueLaw) : Bool := (law.guidance.map Guidance.awaiting).getD false

/-- The guidance part of an advance: commanded guidance latches its waiting target, and the
memory of the guidance moves on to the accepted state. -/
def guidanceStep (law : TorqueLaw) (t : Float) (s : SatState) (ls : LawState) :
    Tracked TorqueLaw (Option GuidanceMemory) :=
  match law.guidance, ls.guidance with
  | some g, some m => do
    let (m, g) ← Tracked.lift (g.advance t s m)
    modify fun law => { law with guidance := some g }
    pure (some m)
  | _, m => pure m

/-- The sensor part of an advance: an estimating policy takes a reading if one is due. -/
def estimateStep (policy : Policy) (t : Float) (s : SatState) (b : Body) (ls : LawState) :
    Tracked TorqueLaw (Option FieldRateEstimate) :=
  match ls.estimate with
  | some e =>
    if policy.isEstimating then some <$> onPhase ls.phaseIndex (Policy.updateEstimate t s b e)
    else pure (some e)
  | none => pure none

/-- The rows of the transition table with their places, in table order. -/
def rows (law : TorqueLaw) : List (Nat × Transition) :=
  (List.range law.transitions.length).zip law.transitions

/-- An advance in its parts: the reference, the policy and the integral are plain outcomes,
then the guidance and the sensor memory move on, then the transition table fires. -/
theorem advance_eq (t : Float) (s : SatState) (b : Body) (ls : LawState) :
    advance t s b ls =
      (get >>= fun law =>
        Tracked.lift (law.reference t s ls) >>= fun reference =>
        Tracked.lift (law.policyAt ls.phaseIndex) >>= fun policy =>
        Tracked.lift (policy.updateIntegral (t - ls.time) s reference ls.integral) >>= fun integral =>
        guidanceStep law t s ls >>= fun memory =>
        estimateStep policy t s b ls >>= fun estimate =>
        fire t s ls reference { ls with time := t, integral, guidance := memory, estimate }
          law.rows) := by
  unfold advance
  congr 1; funext law
  congr 1; funext reference
  congr 1; funext policy
  congr 1; funext integral
  -- the tail after the guidance is shared by both of its cases
  rcases hg : law.guidance with _ | g <;> rcases hm : ls.guidance with _ | m <;>
    rcases he : ls.estimate with _ | e <;>
    simp only [guidanceStep, estimateStep, rows, hg, hm, he, bind_assoc, pure_bind] <;>
    split_ifs <;> simp only [pure_bind]

/-- Moving the guidance on from the law it belongs to latches at most a waiting target, and
leaves guidance that has none as it is. -/
theorem runFrom_guidanceStep (law : TorqueLaw) (t : Float) (s : SatState) (ls : LawState) :
    (runFrom (guidanceStep law t s ls) law).2.skeleton = law.skeleton ∧
      (law.awaiting = false → (runFrom (guidanceStep law t s ls) law).2.guidance = law.guidance) := by
  unfold guidanceStep
  split
  · rename_i g m hg _
    rw [runFrom_lift_bind]
    rcases ha : g.advance t s m with e | ⟨m', g'⟩
    · exact ⟨rfl, fun _ => rfl⟩
    · obtain ⟨hw, hw'⟩ := Guidance.advance_withoutPending ha
      simp only [runFrom_bind, runFrom_modify, runFrom_pure]
      refine ⟨skeleton_congr rfl rfl (by simp [hg, hw]) rfl, fun hnone => ?_⟩
      simp only [awaiting, hg, Option.map_some, Option.getD_some] at hnone
      show some g' = law.guidance
      rw [hg, ← Guidance.withoutPending_eq_self hw', hw, Guidance.withoutPending_eq_self hnone]
  · exact ⟨rfl, fun _ => rfl⟩

/-- The sensor part of an advance keeps what an update of the active phase's estimate keeps. -/
theorem keeps_estimateStep_of {γ : Type} {f : TorqueLaw → γ} {policy : Policy} {t : Float}
    {s : SatState} {b : Body} {ls : LawState}
    (hupdate : ∀ e, Keeps f (onPhase ls.phaseIndex (Policy.updateEstimate t s b e))) :
    Keeps f (estimateStep policy t s b ls) := by
  unfold estimateStep
  split
  · split
    · exact (hupdate _).map _
    · exact keeps_pure _
  · exact keeps_pure _

theorem keeps_estimateStep (policy : Policy) (t : Float) (s : SatState) (b : Body)
    (ls : LawState) : Keeps skeleton (estimateStep policy t s b ls) :=
  keeps_estimateStep_of fun _ => keeps_onPhase _ (Policy.keeps_updateEstimate t s b _)

/-- An advance moves the sensors it reads and latches a waiting target, and nothing else. -/
theorem keeps_advance (t : Float) (s : SatState) (b : Body) (ls : LawState) :
    Keeps skeleton (advance t s b ls) := by
  rw [advance_eq]
  exact keeps_get_bind fun law =>
    keepsAt_lift_bind fun reference => keepsAt_lift_bind fun policy =>
      keepsAt_lift_bind fun _ => keepsAt_bind (runFrom_guidanceStep law t s ls).1 fun _ =>
        (keeps_estimateStep policy t s b ls).bind fun _ => keeps_fire t s ls reference _ _

end TorqueLaw

end Spacecraft
