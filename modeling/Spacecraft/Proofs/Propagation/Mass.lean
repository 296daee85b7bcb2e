import Mathlib
import Spacecraft.Proofs.Propagation.Trial

/-!
# The mass of a run

No model of the dynamics changes the mass: every rate has fourteen entries, the last of them
zero (`Propagator.rate_mass`). Both methods add to the mass entry the step times a weighted
sum of the stages' mass rates, and that sum is a zero (`Integrator.attempt_mass`). A zero
added to a value that is not NaN leaves a value equal to it, so an accepted step keeps the
mass, as a float equal to the one before, and the inertia (`stepsTo_mass`).
-/

namespace Spacecraft

open Binary64 (IsZero)

theorem StateRate.toArray_length (r : StateRate) : r.toArray.length = 14 := by
  simp [StateRate.toArray, Vec3.toList, Quat.toList]

theorem StateRate.toArray_mass (r : StateRate) : r.toArray[13]? = some r.mass := rfl

/-- The dynamics never change the mass. -/
theorem DynamicsModel.derivative_mass {m : DynamicsModel} {t : Float} {s : SatState}
    {c : LawState} {r : StateRate} (h : m.derivative t s c = .ok r) : r.mass = 0.0 := by
  unfold DynamicsModel.derivative at h
  obtain ⟨⟨forces, torques⟩, -, h⟩ := Outcome.bind_eq_ok h
  obtain ⟨_, -, h⟩ := Outcome.bind_eq_ok h
  cases h
  rfl

/-- A rate of the flat state equation: fourteen entries, the mass rate zero. -/
def MassRate (k : List Float) : Prop := k.length = 14 ∧ k[13]? = some 0.0

theorem Propagator.rate_mass {d : DynamicsModel} {inertia : Mat3} {control : Option LawState}
    {t : Float} {y k : List Float} (h : Propagator.rate d inertia control t y = .ok k) :
    MassRate k := by
  unfold Propagator.rate at h
  obtain ⟨s, -, h⟩ := Outcome.bind_eq_ok h
  obtain ⟨r, hr, h⟩ := Outcome.bind_eq_ok h
  cases h
  exact ⟨r.toArray_length, by rw [r.toArray_mass, DynamicsModel.derivative_mass hr]⟩

/-- A fold that appends one value at each element appends as many values as the list has,
each with the property the step gives. -/
theorem foldlM_snoc {α β : Type} {P : β → Prop} (g : List β → α → Outcome (List β))
    (hg : ∀ acc a acc', g acc a = .ok acc' → ∃ b, acc' = acc ++ [b] ∧ P b) :
    ∀ (L : List α) (acc out : List β), L.foldlM g acc = .ok out →
      out.length = acc.length + L.length ∧ ∀ b ∈ out, b ∈ acc ∨ P b := by
  intro L
  induction L with
  | nil =>
    intro acc out h
    cases h
    exact ⟨rfl, fun b hb => .inl hb⟩
  | cons a L ih =>
    intro acc out h
    rw [List.foldlM_cons] at h
    obtain ⟨acc', ha, h⟩ := Outcome.bind_eq_ok h
    obtain ⟨b, rfl, hb⟩ := hg acc a acc' ha
    obtain ⟨hlen, hmem⟩ := ih _ _ h
    refine ⟨by simp [hlen]; omega, fun c hc => ?_⟩
    rcases hmem c hc with hc | hc
    · rcases List.mem_append.1 hc with hc | hc
      · exact .inl hc
      · rw [List.mem_singleton.1 hc]; exact .inr hb
    · exact .inr hc

namespace DormandPrince

/-- The stage rates of a step: seven of them, the first given and the others rates of `f`. -/
theorem stages_spec {f : RateFunction} {t : Float} {y : List Float} {h : Float}
    {k0 : List Float} {ks : List (List Float)} (hs : stages f t y h k0 = .ok ks) :
    ks.length = 7 ∧ ∀ k ∈ ks, k = k0 ∨ ∃ τ z, f τ z = .ok k := by
  unfold stages at hs
  obtain ⟨hlen, hmem⟩ := foldlM_snoc (P := fun k => ∃ τ z, f τ z = .ok k) _
    (fun acc _ acc' ha => by
      obtain ⟨k, hk, ha⟩ := Outcome.bind_eq_ok ha
      cases ha
      exact ⟨k, rfl, _, _, hk⟩) _ _ _ hs
  refine ⟨by rw [hlen]; rfl, fun k hk => ?_⟩
  rcases hmem k hk with hk | hk
  · exact .inl (List.mem_singleton.1 hk)
  · exact .inr hk

/-- The fifth-order sum of seven mass rates that are zero is a zero. -/
theorem combine_fifthOrder_mass {ks : List (List Float)} (hlen : ks.length = 7)
    (hk : ∀ k ∈ ks, MassRate k) :
    ∃ c, IsZero c ∧ (Summation.combine fifthOrder ks)[13]? = some c := by
  obtain ⟨k0, rest, rfl⟩ : ∃ k0 rest, ks = k0 :: rest := by
    cases ks with
    | nil => cases hlen
    | cons k0 rest => exact ⟨k0, rest, rfl⟩
  have hm : ((k0 :: rest).head?.map List.length).getD 0 = 14 := (hk k0 (by simp)).1
  -- the mass entry lies past the last block of four, so it is a fused multiply-add chain
  have hrow : Summation.rowOf (k0 :: rest) 13 = List.replicate 7 0.0 := by
    rw [Summation.rowOf, ← hlen, ← List.map_const']
    refine List.map_congr_left fun k hk' => ?_
    rw [List.getD_eq_getElem?_getD, (hk k hk').2]
    rfl
  refine ⟨_, Binary64.isZero_iff_beq_zero.2 (by decide +kernel :
    (Summation.chainEntry (fifthOrder.zip (List.replicate 7 0.0)) == 0) = true), ?_⟩
  rw [Summation.combine, hm, ← hrow]
  · simp
  · intro w c hw _
    simp [fifthOrder] at hw

end DormandPrince

namespace Integrator

/-- A trial adds to the mass entry the step times a zero. -/
theorem attempt_mass {i : Integrator} {f : RateFunction} {t h m : Float} {y : List Float}
    {o : StepOutcome} (hf : ∀ τ z k, f τ z = .ok k → MassRate k)
    (ha : i.attempt f t y h = .ok o) (hy : y[13]? = some m) :
    ∃ a z, IsZero z ∧ o.state[13]? = some (m + a * z) := by
  cases i with
  | rungeKutta stepSize =>
    simp only [attempt] at ha
    obtain ⟨k1, h1, ha⟩ := Outcome.bind_eq_ok ha
    obtain ⟨k2, h2, ha⟩ := Outcome.bind_eq_ok ha
    obtain ⟨k3, h3, ha⟩ := Outcome.bind_eq_ok ha
    obtain ⟨k4, h4, ha⟩ := Outcome.bind_eq_ok ha
    cases ha
    refine ⟨h / 6, ((0.0 + 2 * 0.0) + 2 * 0.0) + 0.0, ⟨.positive, rfl⟩, ?_⟩
    simp [FlatState.addScaled, List.getElem?_zipWith, List.getElem?_map, hy, (hf _ _ _ h1).2,
      (hf _ _ _ h2).2, (hf _ _ _ h3).2, (hf _ _ _ h4).2]
  | dormandPrince c =>
    simp only [attempt] at ha
    obtain ⟨k0, h0, ha⟩ := Outcome.bind_eq_ok ha
    obtain ⟨ks, hs, ha⟩ := Outcome.bind_eq_ok ha
    split at ha
    · cases ha
    · cases ha
      obtain ⟨hlen, hmem⟩ := DormandPrince.stages_spec hs
      obtain ⟨z, hz, hc⟩ := DormandPrince.combine_fifthOrder_mass hlen fun k hk => by
        rcases hmem k hk with rfl | ⟨τ, w, hk'⟩
        · exact hf _ _ _ h0
        · exact hf _ _ _ hk'
      exact ⟨h, z, hz, by simp [FlatState.addScaled, List.getElem?_zipWith, hy, hc]⟩

end Integrator

namespace Propagator

variable {p : Propagator} {tEnd : Float}

/-- An accepted step keeps the mass, as a float equal to the one before, and the inertia. -/
theorem stepsTo_mass {g g' : Progress} {f : Option Fault} (hs : StepsTo p tEnd g g' f)
    (hacc : g'.steps = g.steps + 1) :
    (g'.state.mass == g.state.mass) = true ∧ g'.state.inertia = g.state.inertia := by
  cases hs with
  | accepted ht hr =>
    obtain ⟨hreb, hfin, -⟩ := p.rebuild_ok tEnd hr
    obtain ⟨a, z, hz, hm⟩ := Integrator.attempt_mass (fun _ _ _ hk => rate_mass hk)
      (p.trials_ok tEnd ht).1 (SatState.toArray_mass g.state)
    rw [hreb.mass, Option.some.injEq] at hm
    refine ⟨?_, hreb.inertia⟩
    -- the new mass is finite, so the product is finite and hence a zero
    have hsum : (g.state.mass + a * z).isFinite = true := by
      rw [← hm]; exact SatState.isFinite_of_mem_toArray hfin (SatState.mass_mem_toArray _)
    have hprod : (a * z).isFinite = true := by
      cases hp : (a * z).isFinite
      · rw [Binary64.isFinite_add_right _ hp] at hsum; cases hsum
      · rfl
    have hmass : g.state.mass.isFinite = true := by
      cases hp : g.state.mass.isFinite
      · rw [Binary64.isFinite_add_left _ hp] at hsum; cases hsum
      · rfl
    dsimp only
    rw [hm]
    exact Binary64.add_isZero_beq (Binary64.ne_nan_of_isFinite hmass)
      (Binary64.isZero_mul_of_isFinite a hz hprod)
  | _ => simp at hacc

end Propagator

end Spacecraft
