import Mathlib
import Spacecraft.Proofs.Exact.Kinematics
import Spacecraft.Proofs.Exact.DormandPrince
import Spacecraft.Proofs.Propagation.Summary

/-!
# An attitude at rest

A flat state is at rest when its spin slots vanish, that is hold zeros or NaN
(`FlatState.SpinVanishes`). Without torque the dynamics keep a state at rest and do not turn
it: the spin rate solves Euler's equations with a right-hand side of products of the spin,
and every step of the solve multiplies, divides or fuses such values, so it vanishes
(`RigidBody.angularAcceleration_vanishing`); the attitude rate is half a sum of products of
the spin, so it vanishes too (`RigidBody.quaternionRate_vanishing`). So the flat state
equation of a run keeps rest (`Propagator.rate_keepsRest`).

Both methods build each stage as the state plus a weighted sum of earlier rates
(`Summation.combine`, whose sums vanish wherever their columns do: `combine_vanishesAt`), so
under a rate function that keeps rest every stage is at rest and every rate has vanishing
spin and attitude entries; the step adds to each attitude slot the step size times such a
sum, which leaves it as it was up to the sign of a zero, or makes it NaN
(`Integrator.attempt_attitude_at_rest`).
-/

namespace Spacecraft

open Binary64

namespace FlatState

/-- The entry at `j` is a zero or NaN; an entry past the end is read as zero, as the stage
sums read it. -/
def VanishesAt (v : List Float) (j : Nat) : Prop := ZeroOrNaN (v.getD j 0.0)

/-- The spin entries vanish: a state at rest, or a rate that leaves the spin as it is. -/
def SpinVanishes (v : List Float) : Prop := ∀ j ∈ [10, 11, 12], VanishesAt v j

/-- The attitude entries vanish. -/
def AttitudeVanishes (v : List Float) : Prop := ∀ j ∈ [6, 7, 8, 9], VanishesAt v j

theorem zeroOrNaN_zero : ZeroOrNaN (0.0 : Float) := .inl ⟨.positive, rfl⟩

theorem VanishesAt.of_getElem? {v : List Float} {j : Nat} {x : Float} (hv : VanishesAt v j)
    (hx : v[j]? = some x) : ZeroOrNaN x := by
  rw [VanishesAt, List.getD_eq_getElem?_getD, hx] at hv
  exact hv

/-- Entrywise operations that keep vanishing values keep a vanishing entry. -/
theorem vanishesAt_zipWith {f : Float → Float → Float}
    (hf : ∀ a b, ZeroOrNaN a → ZeroOrNaN b → ZeroOrNaN (f a b)) {u v : List Float} {j : Nat}
    (hu : VanishesAt u j) (hv : VanishesAt v j) : VanishesAt (List.zipWith f u v) j := by
  unfold VanishesAt at *
  rw [List.getD_eq_getElem?_getD] at *
  rw [List.getElem?_zipWith']
  cases hu' : u[j]? <;> cases hv' : v[j]? <;> simp only [hu', hv'] at hu hv <;>
    simp only [Option.map_none, Option.map_some, Option.bind_none, Option.bind_some,
      Option.getD_none, Option.getD_some] <;>
    first
    | exact zeroOrNaN_zero
    | exact hf _ _ hu hv

theorem vanishesAt_map {f : Float → Float} (hf : ∀ a, ZeroOrNaN a → ZeroOrNaN (f a))
    {u : List Float} {j : Nat} (hu : VanishesAt u j) : VanishesAt (u.map f) j := by
  unfold VanishesAt at *
  rw [List.getD_eq_getElem?_getD] at *
  rw [List.getElem?_map]
  cases hu' : u[j]? with
  | none => exact zeroOrNaN_zero
  | some a =>
    rw [hu'] at hu
    exact hf a hu

theorem vanishesAt_addScaled {y d : List Float} {a : Float} {j : Nat} (hy : VanishesAt y j)
    (hd : VanishesAt d j) : VanishesAt (addScaled y a d) j :=
  vanishesAt_zipWith (fun _ _ hu hv => hu.add (hv.mul_left a)) hy hd

/-- Adding a multiple of a vanishing entry leaves the entry of the state as it was up to the
sign of a zero, or makes it NaN. -/
theorem addScaled_agree {y d : List Float} {a x' : Float} {j : Nat} (hd : VanishesAt d j)
    (h : (addScaled y a d)[j]? = some x') :
    ∃ x, y[j]? = some x ∧ (x'.isNaN = true ∨ Agree x' x) := by
  rw [addScaled, List.getElem?_zipWith'] at h
  cases hy : y[j]? with
  | none => simp [hy] at h
  | some x =>
    cases hd' : d[j]? with
    | none => simp [hy, hd'] at h
    | some b =>
      simp only [hy, hd', Option.map_some, Option.bind_some, Option.some.injEq] at h
      subst h
      exact ⟨x, rfl, add_zeroOrNaN x ((hd.of_getElem? hd').mul_left a)⟩

end FlatState

open FlatState

/-! ## Weighted column sums -/

namespace Summation

/-- A fused multiply-add chain over vanishing entries from a vanishing start vanishes. -/
theorem foldl_fma_zeroOrNaN (terms : List (Float × Float)) {acc : Float}
    (ht : ∀ p ∈ terms, ZeroOrNaN p.2) (hacc : ZeroOrNaN acc) :
    ZeroOrNaN (terms.foldl (fun acc (x, a) => Binary64.fma a x acc) acc) :=
  List.foldlRecOn terms _ hacc fun _ hb p hp => fma_zeroOrNaN_left (ht p hp) p.1 hb

theorem blockEntry_zeroOrNaN (terms : List (Float × Float)) (acc : Float)
    (ht : ∀ p ∈ terms, ZeroOrNaN p.2) (hacc : ZeroOrNaN acc) :
    ZeroOrNaN (blockEntry terms acc) := by
  fun_induction blockEntry terms acc with
  | case1 acc x0 a0 x1 a1 x2 a2 x3 a3 rest sum ih =>
    simp only [List.forall_mem_cons] at ht
    obtain ⟨h0, h1, h2, h3, hrest⟩ := ht
    refine ih hrest (ZeroOrNaN.add ?_ hacc)
    exact fma_zeroOrNaN_left h3 x3 (fma_zeroOrNaN_left h2 x2
      (fma_zeroOrNaN_left h0 x0 (h1.mul_right x1)))
  | case2 acc x0 a0 x1 a1 rest _ ih =>
    simp only [List.forall_mem_cons] at ht
    obtain ⟨h0, h1, hrest⟩ := ht
    exact ih hrest ((fma_zeroOrNaN_left h0 x0 (h1.mul_right x1)).add hacc)
  | case3 acc x a => exact hacc.add ((ht (x, a) (by simp)).mul_right x)
  | case4 acc => exact hacc

theorem chainEntry_zeroOrNaN (terms : List (Float × Float)) (ht : ∀ p ∈ terms, ZeroOrNaN p.2) :
    ZeroOrNaN (chainEntry terms) :=
  (foldl_fma_zeroOrNaN terms ht zeroOrNaN_zero).add zeroOrNaN_zero

theorem pairedEntry_zeroOrNaN (terms : List (Float × Float)) (acc : Float)
    (ht : ∀ p ∈ terms, ZeroOrNaN p.2) (hacc : ZeroOrNaN acc) :
    ZeroOrNaN (pairedEntry terms acc) := by
  fun_induction pairedEntry terms acc with
  | case1 acc x0 a0 x1 a1 x2 a2 x3 a3 rest ih =>
    simp only [List.forall_mem_cons] at ht
    obtain ⟨h0, h1, h2, h3, hrest⟩ := ht
    exact ih hrest ((hacc.add (fma_zeroOrNaN_left h0 x0 (h1.mul_right x1))).add
      (fma_zeroOrNaN_left h2 x2 (h3.mul_right x3)))
  | case2 acc rest _ => exact (foldl_fma_zeroOrNaN rest ht hacc).add zeroOrNaN_zero

theorem dotList_zeroOrNaN (a b : List Float) (hb : ∀ x ∈ b, ZeroOrNaN x) :
    ZeroOrNaN (dotList a b) :=
  List.foldlRecOn (a.zip b) _ zeroOrNaN_zero fun _ hacc p hp =>
    fma_zeroOrNaN_right p.1 (hb p.2 (List.of_mem_zip hp).2) hacc

/-- A weighted sum of columns vanishes wherever every column does, whatever the weights. -/
theorem combine_vanishesAt (weights : List Float) (columns : List (List Float)) {j : Nat}
    (h : ∀ c ∈ columns, VanishesAt c j) : VanishesAt (combine weights columns) j := by
  -- the row of the columns at `j` vanishes
  have hrow : ∀ i, (∀ c ∈ columns, VanishesAt c i) → ∀ x ∈ rowOf columns i, ZeroOrNaN x := by
    intro i hi x hx
    obtain ⟨c, hc, rfl⟩ := List.mem_map.1 hx
    exact hi c hc
  have hterms : ∀ p ∈ weights.zip (rowOf columns j), ZeroOrNaN p.2 :=
    fun p hp => hrow j h p.2 (List.of_mem_zip hp).2
  unfold combine
  split
  · -- one weight and one column: the column scaled
    rename_i w c
    have hc := h c (by simp)
    dsimp only
    split
    · exact vanishesAt_map (fun a ha => ha.mul_left w) hc
    · exact vanishesAt_map (fun a ha => (ha.mul_left w).add zeroOrNaN_zero) hc
  · dsimp only
    split
    · -- a one-entry state: its entry is the dot product of the weights and the first row
      rcases j with _ | j
      · exact dotList_zeroOrNaN _ _ (hrow 0 h)
      · exact zeroOrNaN_zero
    · unfold VanishesAt
      rw [List.getD_eq_getElem?_getD, List.getElem?_map]
      by_cases hj : j < (columns.head?.map List.length).getD 0
      · rw [List.getElem?_range hj, Option.map_some, Option.getD_some]
        split_ifs
        · exact blockEntry_zeroOrNaN _ _ hterms zeroOrNaN_zero
        · exact pairedEntry_zeroOrNaN _ _ hterms zeroOrNaN_zero
        · exact chainEntry_zeroOrNaN _ hterms
      · rw [List.getElem?_eq_none (by simpa using hj)]
        exact zeroOrNaN_zero

end Summation

/-! ## The methods -/

/-- A fold in an outcome keeps what each step keeps. -/
theorem foldlM_invariant {α β : Type} {I : β → Prop} {g : β → α → Outcome β}
    (hg : ∀ b a b', I b → g b a = .ok b' → I b') :
    ∀ (L : List α) {b b' : β}, I b → L.foldlM g b = .ok b' → I b'
  | [], _, _, hb, h => by
    cases h
    exact hb
  | a :: L, b, _, hb, h => by
    rw [List.foldlM_cons] at h
    obtain ⟨c, hc, h⟩ := Outcome.bind_eq_ok h
    exact foldlM_invariant hg L (hg b a c hb hc) h

/-- A rate function that keeps rest: at a state whose spin entries vanish, the rates of the
spin and of the attitude vanish. -/
def KeepsRest (f : RateFunction) : Prop :=
  ∀ τ z k, f τ z = .ok k → SpinVanishes z → SpinVanishes k ∧ AttitudeVanishes k

section Methods

variable {f : RateFunction} {y : List Float}

/-- A stage built from rates that keep the spin is at rest when the state is. -/
theorem spinVanishes_stage {ks : List (List Float)} (hy : SpinVanishes y)
    (hks : ∀ k ∈ ks, SpinVanishes k) (a : Float) (weights : List Float) :
    SpinVanishes (FlatState.addScaled y a (Summation.combine weights ks)) :=
  fun j hj => vanishesAt_addScaled (hy j hj)
    (Summation.combine_vanishesAt weights ks fun k hk => hks k hk j hj)

/-- The stage rates of a Dormand–Prince step under a rate function that keeps rest, from a
state at rest and a first rate that keeps it, all keep it. -/
theorem DormandPrince.stages_keepRest (hf : KeepsRest f) (hy : SpinVanishes y) {t h : Float}
    {k0 : List Float} (hk0 : SpinVanishes k0 ∧ AttitudeVanishes k0) {ks : List (List Float)}
    (hs : DormandPrince.stages f t y h k0 = .ok ks) :
    ∀ k ∈ ks, SpinVanishes k ∧ AttitudeVanishes k := by
  refine foldlM_invariant (I := fun ks => ∀ k ∈ ks, SpinVanishes k ∧ AttitudeVanishes k)
    (fun acc _ acc' hacc hstep => ?_) _ (fun k hk => by rw [List.mem_singleton.1 hk]; exact hk0) hs
  obtain ⟨k, hk, hstep⟩ := Outcome.bind_eq_ok hstep
  cases hstep
  have hnew := hf _ _ _ hk (spinVanishes_stage hy (fun k hk => (hacc k hk).1) h _)
  intro k' hk'
  rcases List.mem_append.1 hk' with hk' | hk'
  · exact hacc k' hk'
  · rw [List.mem_singleton.1 hk']
    exact hnew

/-- A trial step of either method under a rate function that keeps rest, from a state at
rest, adds to the state a multiple of an increment whose attitude entries vanish. -/
theorem Integrator.attempt_increment_at_rest {i : Integrator} (hf : KeepsRest f)
    (hy : SpinVanishes y) {t h : Float} {o : StepOutcome} (ha : i.attempt f t y h = .ok o) :
    ∃ a d, o.state = FlatState.addScaled y a d ∧ AttitudeVanishes d := by
  cases i with
  | rungeKutta stepSize =>
    simp only [Integrator.attempt] at ha
    obtain ⟨k1, h1, ha⟩ := Outcome.bind_eq_ok ha
    obtain ⟨k2, h2, ha⟩ := Outcome.bind_eq_ok ha
    obtain ⟨k3, h3, ha⟩ := Outcome.bind_eq_ok ha
    obtain ⟨k4, h4, ha⟩ := Outcome.bind_eq_ok ha
    cases ha
    -- each stage is the state plus a multiple of the rate before, so each is at rest
    have r1 := hf _ _ _ h1 hy
    have r2 := hf _ _ _ h2 fun j hj => vanishesAt_addScaled (hy j hj) (r1.1 j hj)
    have r3 := hf _ _ _ h3 fun j hj => vanishesAt_addScaled (hy j hj) (r2.1 j hj)
    have r4 := hf _ _ _ h4 fun j hj => vanishesAt_addScaled (hy j hj) (r3.1 j hj)
    have hsum : ∀ a b : Float, ZeroOrNaN a → ZeroOrNaN b → ZeroOrNaN (a + b) :=
      fun _ _ ha hb => ha.add hb
    have htwice : ∀ a : Float, ZeroOrNaN a → ZeroOrNaN (2 * a) := fun a ha => ha.mul_left 2
    refine ⟨h / 6, _, rfl, fun j hj => ?_⟩
    exact vanishesAt_zipWith hsum (vanishesAt_zipWith hsum (vanishesAt_zipWith hsum (r1.2 j hj)
      (vanishesAt_map htwice (r2.2 j hj))) (vanishesAt_map htwice (r3.2 j hj))) (r4.2 j hj)
  | dormandPrince c =>
    simp only [Integrator.attempt] at ha
    obtain ⟨k0, h0, ha⟩ := Outcome.bind_eq_ok ha
    obtain ⟨ks, hs, ha⟩ := Outcome.bind_eq_ok ha
    split at ha
    · cases ha
    · cases ha
      have hks := DormandPrince.stages_keepRest hf hy (hf _ _ _ h0 hy) hs
      exact ⟨h, _, rfl, fun j hj =>
        Summation.combine_vanishesAt _ ks fun k hk => (hks k hk).2 j hj⟩

/-- A trial step of either method under a rate function that keeps rest, from a state at
rest, leaves every attitude slot as it was up to the sign of a zero, unless it makes it
NaN. -/
theorem Integrator.attempt_attitude_at_rest {i : Integrator} (hf : KeepsRest f)
    (hy : SpinVanishes y) {t h : Float} {o : StepOutcome} (ha : i.attempt f t y h = .ok o) :
    ∀ j ∈ [6, 7, 8, 9], ∀ x', o.state[j]? = some x' →
      ∃ x, y[j]? = some x ∧ (x'.isNaN = true ∨ Agree x' x) := by
  obtain ⟨a, d, hs, hd⟩ := Integrator.attempt_increment_at_rest hf hy ha
  intro j hj x' hx
  rw [hs] at hx
  exact addScaled_agree (hd j hj) hx

end Methods

/-! ## Dynamics without torque -/

/-- Every component is a zero or NaN. -/
def Vanishing (v : Fin 3 → Float) : Prop := ∀ i, ZeroOrNaN (v i)

theorem Vanishing.update {v : Fin 3 → Float} (hv : Vanishing v) {a : Float} (ha : ZeroOrNaN a)
    (i : Fin 3) : Vanishing (Function.update v i a) := by
  intro r
  by_cases hr : r = i
  · subst hr
    rw [Function.update_self]
    exact ha
  · rw [Function.update_of_ne hr]
    exact hv r

namespace Elimination

variable {g : Matrix (Fin 3) (Fin 3) Float} {v : Fin 3 → Float}

/-- Exchanging entries keeps a vanishing right-hand side vanishing. -/
theorem exchange_vanishing (pivots : List (Fin 3)) (hv : Vanishing v) :
    Vanishing (exchange pivots v) :=
  List.foldlRecOn _ _ hv fun u hu a _ => by
    obtain ⟨p, i⟩ := a
    exact (hu.update (hu p) i).update (hu i) p

/-- Each update of a substitution is a fused multiply-add with a vanishing factor and addend,
so both keep a vanishing vector vanishing, whatever the factors. -/
theorem forward_vanishing (hv : Vanishing v) : Vanishing (forward g v) :=
  List.foldlRecOn _ _ hv fun u hu j _ =>
    List.foldlRecOn _ _ hu fun u' hu' r _ => by
      split
      · exact hu'.update (fma_zeroOrNaN_left (hu' j).neg _ (hu' r)) r
      · exact hu'

theorem backward_vanishing (hv : Vanishing v) : Vanishing (backward g v) :=
  List.foldlRecOn _ _ hv fun u hu j _ => by
    have hx : ZeroOrNaN (u j / g j j) := (hu j).div _
    exact List.foldlRecOn _ _ (hu.update hx j) fun u' hu' r _ => by
      split
      · exact hu'.update (fma_zeroOrNaN_left hx.neg _ (hu' r)) r
      · exact hu'

/-- A solution of a system with a vanishing right-hand side vanishes. -/
theorem solve_vanishing {m : Matrix (Fin 3) (Fin 3) Float} {x : Fin 3 → Float}
    (hv : Vanishing v) (h : solve m v = .ok x) : Vanishing x := by
  unfold solve at h
  split at h
  split_ifs at h
  cases h
  exact backward_vanishing (forward_vanishing (exchange_vanishing _ hv))

end Elimination

namespace Euler

variable {w τ : Fin 3 → Float}

theorem cross_vanishing (hw : Vanishing w) (b : Fin 3 → Float) : Vanishing (cross w b) := by
  intro i
  fin_cases i
  · exact ((hw 1).mul_right _).sub ((hw 2).mul_right _)
  · exact ((hw 2).mul_right _).sub ((hw 0).mul_right _)
  · exact ((hw 0).mul_right _).sub ((hw 1).mul_right _)

theorem checkedDiv_zeroOrNaN {f : Fault} {a b c : Float} (ha : ZeroOrNaN a)
    (h : checkedDiv f a b = .ok c) : ZeroOrNaN c := by
  unfold checkedDiv at h
  split_ifs at h
  cases h
  exact ha.div b

/-- Each principal-axis component is the torque less a product with a spin factor, over a
principal moment: it vanishes when the spin and the torque do. -/
theorem principal_vanishing {d a : Fin 3 → Float} (hw : Vanishing w) (hτ : Vanishing τ)
    (h : principal w τ d = .ok a) : Vanishing a := by
  unfold principal at h
  obtain ⟨ax, hx, h⟩ := Outcome.bind_eq_ok h
  obtain ⟨ay, hy, h⟩ := Outcome.bind_eq_ok h
  obtain ⟨az, hz, h⟩ := Outcome.bind_eq_ok h
  cases h
  intro i
  fin_cases i
  · exact checkedDiv_zeroOrNaN ((hτ 0).sub ((hw 2).mul_left _)) hx
  · exact checkedDiv_zeroOrNaN ((hτ 1).sub ((hw 0).mul_left _)) hy
  · exact checkedDiv_zeroOrNaN ((hτ 2).sub ((hw 1).mul_left _)) hz

theorem general_vanishing {inertia : Matrix (Fin 3) (Fin 3) Float} {a : Fin 3 → Float}
    (hw : Vanishing w) (hτ : Vanishing τ) (h : general w τ inertia = .ok a) : Vanishing a :=
  Elimination.solve_vanishing (fun i => (hτ i).sub (cross_vanishing hw _ i)) h

/-- Without spin and torque, the spin rate vanishes on either branch. -/
theorem angularAcceleration_vanishing {inertia : Matrix (Fin 3) (Fin 3) Float}
    {a : Fin 3 → Float} (hw : Vanishing w) (hτ : Vanishing τ)
    (h : angularAcceleration inertia w τ = .ok a) : Vanishing a := by
  unfold angularAcceleration at h
  split at h
  · exact principal_vanishing hw hτ h
  · exact general_vanishing hw hτ h

end Euler

namespace RigidBody

theorem angularAcceleration_vanishing {inertia : Mat3} {w τ a : Vec3} (hw : Vanishing w.toFun)
    (hτ : Vanishing τ.toFun) (h : angularAcceleration inertia w τ = .ok a) :
    Vanishing a.toFun := by
  have hmap := angularAcceleration_toFun inertia w τ
  rw [h] at hmap
  exact Euler.angularAcceleration_vanishing hw hτ hmap.symm

/-- Every component of the attitude rate is half a sum of spin components times attitude
components, so it vanishes with the spin. -/
theorem quaternionRate_vanishing (q : Quat) {w : Vec3} (hw : Vanishing w.toFun) :
    ZeroOrNaN (quaternionRate q w).w ∧ ZeroOrNaN (quaternionRate q w).x ∧
      ZeroOrNaN (quaternionRate q w).y ∧ ZeroOrNaN (quaternionRate q w).z := by
  have hx : ZeroOrNaN w.x := hw 0
  have hy : ZeroOrNaN w.y := hw 1
  have hz : ZeroOrNaN w.z := hw 2
  refine ⟨?_, ?_, ?_, ?_⟩ <;> refine ZeroOrNaN.mul_left 0.5 ?_
  · exact ((hx.neg.mul_right _).sub (hy.mul_right _)).sub (hz.mul_right _)
  · exact ((hx.mul_right _).add (hz.mul_right _)).sub (hy.mul_right _)
  · exact ((hy.mul_right _).sub (hz.mul_right _)).add (hx.mul_right _)
  · exact ((hz.mul_right _).add (hy.mul_right _)).sub (hx.mul_right _)

end RigidBody

/-- A model of the dynamics whose total torque vanishes wherever it is evaluated. -/
def DynamicsModel.TorqueFree (d : DynamicsModel) : Prop :=
  ∀ τ s c fs ts, d.contributions τ s c = .ok (fs, ts) → Vanishing (Contribution.total ts).toFun

/-- A model with no torque model and no law is torque free. -/
theorem DynamicsModel.torqueFree_of_no_torques {d : DynamicsModel} (ht : d.torques = [])
    (hl : d.law = none) : d.TorqueFree := by
  intro τ s c fs ts h
  unfold contributions at h
  obtain ⟨⟨fs', ts'⟩, hopen, h⟩ := Outcome.bind_eq_ok h
  simp only [hl] at h
  cases h
  -- the open-loop torques are evaluated over no models
  unfold openLoop at hopen
  obtain ⟨_, -, hopen⟩ := Outcome.bind_eq_ok hopen
  obtain ⟨_, -, hopen⟩ := Outcome.bind_eq_ok hopen
  obtain ⟨_, -, hopen⟩ := Outcome.bind_eq_ok hopen
  obtain ⟨tq, htq, hopen⟩ := Outcome.bind_eq_ok hopen
  cases hopen
  rw [ht, List.zip_nil_left, List.mapM_nil] at htq
  cases htq
  intro i
  fin_cases i <;> exact zeroOrNaN_zero

/-- A derivative the dynamics give turns the spin at the angular acceleration under the total
torque of the contributions. -/
theorem DynamicsModel.derivative_spin {m : DynamicsModel} {t : Float} {s : SatState}
    {c : LawState} {r : StateRate} (h : m.derivative t s c = .ok r) :
    ∃ fs ts, m.contributions t s c = .ok (fs, ts) ∧
      RigidBody.angularAcceleration s.inertia s.angularVelocity (Contribution.total ts) =
        .ok r.angularVelocity := by
  unfold DynamicsModel.derivative at h
  obtain ⟨⟨fs, ts⟩, hc, h⟩ := Outcome.bind_eq_ok h
  obtain ⟨α, hα, h⟩ := Outcome.bind_eq_ok h
  cases h
  exact ⟨fs, ts, hc, hα⟩

/-- The spin rebuilt from a flat state whose spin slots vanish vanishes. -/
theorem FlatState.SpinVanishes.spin {z : List Float} {w : Vec3} (hz : SpinVanishes z)
    (hw : w.toList = (z.drop 10).take 3) : Vanishing w.toFun := by
  have slot : ∀ i < 3, w.toList.getD i 0.0 = z.getD (10 + i) 0.0 := by
    intro i hi
    rw [hw, List.getD_eq_getElem?_getD, List.getD_eq_getElem?_getD, List.getElem?_take_of_lt hi,
      List.getElem?_drop]
  have h10 := hz 10 (by simp)
  have h11 := hz 11 (by simp)
  have h12 := hz 12 (by simp)
  rw [VanishesAt, ← slot 0 (by norm_num)] at h10
  rw [VanishesAt, ← slot 1 (by norm_num)] at h11
  rw [VanishesAt, ← slot 2 (by norm_num)] at h12
  intro i
  fin_cases i
  · exact h10
  · exact h11
  · exact h12

/-- The flat state equation of a torque-free model keeps rest: at a state whose spin slots
vanish, the spin rate solves Euler's equations without spin and torque and the attitude rate
is a product with the spin. -/
theorem Propagator.rate_keepsRest {d : DynamicsModel} (hd : d.TorqueFree) (inertia : Mat3)
    (control : Option LawState) : KeepsRest (Propagator.rate d inertia control) := by
  intro τ z k h hz
  unfold Propagator.rate at h
  obtain ⟨s, hs, h⟩ := Outcome.bind_eq_ok h
  obtain ⟨r, hr, h⟩ := Outcome.bind_eq_ok h
  cases h
  have hw := hz.spin (SatState.ofFlat_rebuilt hs).angularVelocity
  obtain ⟨fs, ts, hc, hα⟩ := DynamicsModel.derivative_spin hr
  have hspin := RigidBody.angularAcceleration_vanishing hw (hd _ _ _ _ _ hc) hα
  obtain ⟨h6, h7, h8, h9⟩ := RigidBody.quaternionRate_vanishing s.quaternion hw
  rw [← DynamicsModel.derivative_quaternion hr] at h6 h7 h8 h9
  constructor
  · intro j hj
    simp only [List.mem_cons, List.not_mem_nil, or_false] at hj
    rcases hj with rfl | rfl | rfl
    · exact hspin 0
    · exact hspin 1
    · exact hspin 2
  · intro j hj
    simp only [List.mem_cons, List.not_mem_nil, or_false] at hj
    rcases hj with rfl | rfl | rfl | rfl
    · exact h6
    · exact h7
    · exact h8
    · exact h9

/-! ## The attitude kinematics -/

open Matrix in
/-- The attitude moves at `½ q ⊗ [0, ω]`: in binary64 up to the sign of a zero for a finite
attitude, exactly over the real numbers, where the rate is orthogonal to the attitude. The flat
state equation of a run takes the rate at the normalized attitude slots, so in exact arithmetic
their length does not change along it. A trial step of either method, for a torque-free model
from a state whose spin slots vanish, leaves every attitude slot as it was up to the sign of a
zero, unless it makes it NaN. -/
theorem attitude_kinematics :
    (∀ (q : Quat) (w : Vec3), q.isFinite = true → ∀ i,
      Agree ((RigidBody.quaternionRate q w).toFun i)
        (0.5 * (q.mul ⟨0.0, w.x, w.y, w.z⟩).toFun i)) ∧
    (∀ (q : Fin 4 → ℝ) (w : Fin 3 → ℝ),
      Attitude.rate q w = (fun i => 0.5 * Attitude.mul q (Attitude.ofSpin w) i) ∧
        q ⬝ᵥ Attitude.rate q w = 0) ∧
    (∀ (d : DynamicsModel) (inertia : Mat3) (control : Option LawState) (τ : Float)
      (z k : List Float), Propagator.rate d inertia control τ z = .ok k →
      ∃ q : Quat, ∃ w : Vec3, ∃ n : Fin 4 → Float,
        q.toList = (z.drop 6).take 4 ∧ w.toList = (z.drop 10).take 3 ∧
        (if q.isFinite then Attitude.normalize q.toFun else .ok q.toFun) = .ok n ∧
        (k.drop 6).take 4 = List.ofFn (Attitude.rate n w.toFun)) ∧
    (∀ (q : ℝ → Fin 4 → ℝ) (n : Fin 4 → ℝ) (w : Fin 3 → ℝ) (t : ℝ),
      Attitude.normalize (q t) = .ok n → HasDerivAt q (Attitude.rate n w) t →
        HasDerivAt (fun s => √(q s ⬝ᵥ q s)) 0 t) ∧
    (∀ (i : Integrator) (d : DynamicsModel) (inertia : Mat3) (control : Option LawState)
      (t h : Float) (y : List Float) (o : StepOutcome), d.TorqueFree → SpinVanishes y →
      i.attempt (Propagator.rate d inertia control) t y h = .ok o →
      ∀ j ∈ [6, 7, 8, 9], ∀ x', o.state[j]? = some x' →
        ∃ x, y[j]? = some x ∧ (x'.isNaN = true ∨ Agree x' x)) :=
  ⟨RigidBody.quaternionRate_agree_mul,
    fun q w => ⟨Attitude.rate_eq_mul q w, Attitude.dotProduct_rate_self q w⟩,
    fun _ _ _ _ _ _ h => Propagator.rate_attitude h,
    fun _ _ _ _ hn hq => Attitude.hasDerivAt_length_rate hn hq,
    fun _ _ _ _ _ _ _ _ hd hy ha =>
      Integrator.attempt_attitude_at_rest (Propagator.rate_keepsRest hd _ _) hy ha⟩

namespace Propagator

/-- A step of the classical method from the sample state at rest, with no force and no
torque, succeeds and keeps the attitude slots. -/
theorem resting_step_keeps_attitude :
    ∃ o, (Integrator.rungeKutta 0.5).attempt
        (rate samplePropagator.dynamics sampleState.inertia none) 0.0 sampleState.toArray 0.5 =
          .ok o ∧
      ∀ j ∈ [6, 7, 8, 9], ∀ x', o.state[j]? = some x' →
        ∃ x, sampleState.toArray[j]? = some x ∧ (x'.isNaN = true ∨ Agree x' x) := by
  have hok : ((Integrator.rungeKutta 0.5).attempt
      (rate samplePropagator.dynamics sampleState.inertia none) 0.0 sampleState.toArray
        0.5).isOk = true := by
    decide +kernel
  have hy : SpinVanishes sampleState.toArray := by
    intro j hj
    simp only [List.mem_cons, List.not_mem_nil, or_false] at hj
    rcases hj with rfl | rfl | rfl <;> exact zeroOrNaN_zero
  cases hr : (Integrator.rungeKutta 0.5).attempt
      (rate samplePropagator.dynamics sampleState.inertia none) 0.0 sampleState.toArray 0.5 with
  | error e =>
    rw [hr] at hok
    cases hok
  | ok o =>
    exact ⟨o, rfl, attitude_kinematics.2.2.2.2 _ _ _ _ _ _ _ o
      (DynamicsModel.torqueFree_of_no_torques rfl rfl) hy hr⟩

end Propagator

end Spacecraft
