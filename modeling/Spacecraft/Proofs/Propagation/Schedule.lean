import Mathlib
import Spacecraft.Proofs.Propagation.Decoupling
import Spacecraft.Proofs.Propagation.Time
import Spacecraft.Proofs.Exact.Reading

/-!
# The schedule of a fixed-step run

A step from `t` tries the suggested step cut to what is left of the run, and lands on the end
time when it ends within `10⁻⁶` of a step of it (`Schedule.next`). The fixed-step method
suggests its own step after every step, so a run of it that completes accepts its states at the
times of the schedule this rule makes from the start time (`acceptedStates_schedule`). The rule
is written over any `Scalar` with an order: read over the real numbers, the schedule is
`t₀ + s, t₀ + 2s, …` and then the end time itself, `max 1 ⌈(t_end - t₀)/s - 10⁻⁶⌉` times in all
(`schedule_real`).
-/

namespace Spacecraft

section Formulas

variable {K : Type} [Scalar K] [LT K] [LE K] [DecidableLT K] [DecidableLE K]

/-- The time a step from `t` with suggested step `s` ends at: the step is cut to what is left of
the run, and the end time is taken when the step ends within `10⁻⁶` of a step of it. -/
def Schedule.next (tEnd s t : K) : K :=
  let h := if tEnd - t < s then tEnd - t else s
  if tEnd - (t + h) ≤ 1.0e-6 * h then tEnd else t + h

/-- `ts` are the times at which a run from `t` to `tEnd` with the fixed step `s` accepts its
states: each is where a step from the one before ends, until the end time is reached. -/
inductive Schedule (tEnd s : K) : K → List K → Prop
  | reached {t : K} : ¬ t < tEnd → Schedule tEnd s t []
  | step {t : K} {ts : List K} : t < tEnd → Schedule tEnd s (Schedule.next tEnd s t) ts →
      Schedule tEnd s t (Schedule.next tEnd s t :: ts)

variable {tEnd s : K}

/-- A schedule is determined by where it starts. -/
theorem Schedule.unique {t : K} {ts ts' : List K} (h : Schedule tEnd s t ts)
    (h' : Schedule tEnd s t ts') : ts = ts' := by
  induction h generalizing ts' with
  | reached hn =>
    cases h' with
    | reached => rfl
    | step hlt => exact absurd hlt hn
  | step hlt _ ih =>
    cases h' with
    | reached hn => exact absurd hlt hn
    | step _ h'' => rw [ih h'']

end Formulas

namespace Propagator

variable {p : Propagator} {tEnd s : Float} {listen : Option Nat}

/-- An accepted step of the fixed-step method ends where the schedule says, and suggests the
fixed step again. -/
theorem stepsTo_rungeKutta (hi : p.integrator = .rungeKutta s) {g g' : Progress}
    (hs : StepsTo p tEnd g g' none) (hstep : g.step = s) :
    g'.state.time = Schedule.next tEnd s g.state.time ∧ g'.step = s := by
  cases hs with
  | accepted ht hr =>
    have htime := (p.accepted_time tEnd ht hr).1
    rw [trials_rungeKutta hi] at ht
    obtain ⟨o, hat, ho⟩ := Outcome.map_eq_ok ht
    cases ho
    rw [hi] at hat
    refine ⟨?_, Integrator.rungeKutta_nextStep hat⟩
    rw [htime, ← hstep]
    rfl

/-- A completed loop of the fixed-step method accepts its states at the times of the schedule
from where it stands. -/
theorem passes_schedule (hi : p.integrator = .rungeKutta s) (fuel : Nat) :
    ∀ {g : Progress}, g.step = s → p.Enough g fuel →
      (p.loop tEnd listen none fuel g).reason = .completed →
      Schedule tEnd s g.state.time
        (((p.passes tEnd listen none fuel g).filterMap Pass.acceptedState).map SatState.time) := by
  induction fuel with
  | zero =>
    intro _ _ hE
    exact absurd hE.2 (by have := hE.1; omega)
  | succ n ih =>
    intro g hstep hE hc
    rcases loop_completed hE hc with ⟨hlate, hp⟩ |
      ⟨n', g', hn, hs, hsteps, hearly, hE', hc', hp⟩
    · rw [hp]
      exact .reached hlate
    · -- the loop accepts one state and completes from it
      cases Nat.succ.inj hn
      have hacc : Pass.acceptedState ⟨g, g', none⟩ = some g'.state := if_pos hsteps
      obtain ⟨htime, hstep'⟩ := stepsTo_rungeKutta hi hs hstep
      rw [hp, List.filterMap_cons_some hacc, List.map_cons, htime]
      exact .step hearly (htime ▸ ih hstep' hE' hc')

/-- A completed run of the fixed-step method accepts its states at the times of the schedule from
its start time, and reports one step for each. -/
theorem acceptedStates_schedule (hi : p.integrator = .rungeKutta s) {initial : SatState}
    {observers : List Observer} {S : RunSummary}
    (hS : (p.propagate initial tEnd observers listen).summary = some S)
    (hc : S.reason = .completed) :
    Schedule tEnd s initial.time ((p.acceptedStates tEnd listen initial observers).map SatState.time) ∧
      S.steps = (p.acceptedStates tEnd listen initial observers).length := by
  obtain ⟨g, f, ho⟩ := p.exists_opening tEnd listen none hS
  obtain ⟨rfl, hl⟩ := opening_completed ho hS hc
  have hopen := p.opening_opened tEnd listen ho
  have hstep : g.step = s := by rw [hopen.step, hi]; rfl
  refine ⟨?_, (p.summary_of_opening tEnd listen none ho hS).2.2.1.trans
    (p.ending_steps tEnd listen none ho)⟩
  rw [acceptedStates, runPasses_eq_passes p tEnd listen none ho (by simp), ← hopen.time]
  exact passes_schedule hi _ hstep (p.opened_enough tEnd listen hopen) hl

end Propagator

section Real

variable {tEnd s t : ℝ}

theorem Schedule.next_real (tEnd s t : ℝ) :
    Schedule.next tEnd s t =
      let h := if tEnd - t < s then tEnd - t else s
      if tEnd - (t + h) ≤ 1.0e-6 * h then tEnd else t + h := by
  simp only [Schedule.next, Scalar.real_sub, Scalar.real_add, Scalar.real_mul]

/-- A step that ends more than `10⁻⁶` of a step before the end time is a whole step. -/
theorem Schedule.next_of_lt (hs : 0 < s) (h : 1.0e-6 * s < tEnd - (t + s)) :
    Schedule.next tEnd s t = t + s := by
  have hfull : ¬ tEnd - t < s := by linarith
  rw [Schedule.next_real]
  dsimp only
  rw [if_neg hfull, if_neg (not_le.mpr h)]

/-- A step that ends within `10⁻⁶` of a step of the end time, or past it, lands on it. -/
theorem Schedule.next_of_le (ht : t < tEnd) (h : tEnd - (t + s) ≤ 1.0e-6 * s) :
    Schedule.next tEnd s t = tEnd := by
  rw [Schedule.next_real]
  dsimp only
  split_ifs with hcut hland
  · rfl
  · -- a step cut to what is left ends on the end time
    exact absurd (by linarith : tEnd - (t + (tEnd - t)) ≤ 1.0e-6 * (tEnd - t)) hland
  · rfl

/-- The schedule over the reals, by induction on its number of steps: whole steps while more
than `10⁻⁶` of a step is left after them, then the end time. -/
theorem schedule_ofFn (hs : 0 < s) :
    ∀ (m : ℕ) {t : ℝ}, t < tEnd → max 1 ⌈(tEnd - t) / s - 1.0e-6⌉₊ = m →
      Schedule tEnd s t
        (List.ofFn fun k : Fin m => if (k : ℕ) + 1 < m then t + ((k : ℕ) + 1) * s else tEnd) := by
  intro m
  induction m with
  | zero => intro t _ hm; omega
  | succ m ih =>
    intro t ht hm
    rcases Nat.eq_zero_or_pos m with rfl | hpos
    · -- one step left: it lands on the end time
      have hx : (tEnd - t) / s - 1.0e-6 ≤ 1 := by
        have : ⌈(tEnd - t) / s - 1.0e-6⌉₊ ≤ 1 := by omega
        exact_mod_cast Nat.ceil_le.mp this
      have hland : tEnd - (t + s) ≤ 1.0e-6 * s := by
        rw [div_sub' hs.ne', div_le_one hs] at hx
        linarith
      have hnext := Schedule.next_of_le ht hland
      have hstep : Schedule tEnd s t [Schedule.next tEnd s t] :=
        .step ht (by rw [hnext]; exact .reached (lt_irrefl tEnd))
      rw [hnext] at hstep
      simpa using hstep
    · -- a whole step, after which one step fewer is left
      have hx : 1 < (tEnd - t) / s - 1.0e-6 := by
        have : 1 < ⌈(tEnd - t) / s - 1.0e-6⌉₊ := by omega
        exact_mod_cast Nat.lt_ceil.mp this
      have hwhole : 1.0e-6 * s < tEnd - (t + s) := by
        rw [div_sub' hs.ne', lt_div_iff₀ hs] at hx
        linarith
      have hnext := Schedule.next_of_lt hs hwhole
      have hrest : (tEnd - (t + s)) / s - 1.0e-6 = (tEnd - t) / s - 1.0e-6 - 1 := by
        field_simp
        ring
      have hm' : max 1 ⌈(tEnd - (t + s)) / s - 1.0e-6⌉₊ = m := by
        have hceil := Nat.ceil_add_one (sub_nonneg.mpr hx.le)
        rw [sub_add_cancel] at hceil
        rw [hrest]
        omega
      have htail := ih (by linarith) hm'
      -- the first time is one step on, and the rest is the schedule from there
      have hlist : (List.ofFn fun k : Fin (m + 1) =>
            if (k : ℕ) + 1 < m + 1 then t + ((k : ℕ) + 1) * s else tEnd) =
          Schedule.next tEnd s t :: List.ofFn fun k : Fin m =>
            if (k : ℕ) + 1 < m then t + s + ((k : ℕ) + 1) * s else tEnd := by
        rw [List.ofFn_succ, hnext]
        congr 1
        · simp [hpos]
        · congr 1
          funext k
          simp only [Fin.val_succ]
          push_cast
          split_ifs <;> first | omega | ring
      rw [hlist]
      exact .step ht (hnext ▸ htail)

/-- Over the reals the schedule of a run with a positive step to a later end time is
`t₀ + s, t₀ + 2s, …` and then the end time, `max 1 ⌈(t_end - t₀)/s - 10⁻⁶⌉` times in all. -/
theorem schedule_real (hs : 0 < s) (ht : t < tEnd) (ts : List ℝ) :
    Schedule tEnd s t ts ↔
      ts = List.ofFn fun k : Fin (max 1 ⌈(tEnd - t) / s - 1.0e-6⌉₊) =>
        if (k : ℕ) + 1 < max 1 ⌈(tEnd - t) / s - 1.0e-6⌉₊ then t + ((k : ℕ) + 1) * s else tEnd :=
  ⟨fun h => h.unique (schedule_ofFn hs _ ht rfl), fun h => h ▸ schedule_ofFn hs _ ht rfl⟩

end Real

/-- The schedule of a fixed-step run. A completed run of the fixed-step method with step `s`
accepts its states at the times of the schedule from its start time, and reports one step for
each; in exact arithmetic, with `0 < s` and a later end time, that schedule is `t₀ + k s` for
`k < n` and then the end time itself, with `n = max 1 ⌈(t_end - t₀)/s - 10⁻⁶⌉`. -/
theorem fixed_step_schedule :
    (∀ (p : Propagator) (s tEnd : Float) (initial : SatState) (observers : List Observer)
        (listen : Option Nat) (S : RunSummary), p.integrator = .rungeKutta s →
      (p.propagate initial tEnd observers listen).summary = some S → S.reason = .completed →
      Schedule tEnd s initial.time
          ((p.acceptedStates tEnd listen initial observers).map SatState.time) ∧
        S.steps = (p.acceptedStates tEnd listen initial observers).length) ∧
    (∀ (tEnd s t₀ : ℝ) (ts : List ℝ), 0 < s → t₀ < tEnd →
      (Schedule tEnd s t₀ ts ↔
        ts = List.ofFn fun k : Fin (max 1 ⌈(tEnd - t₀) / s - 1.0e-6⌉₊) =>
          if (k : ℕ) + 1 < max 1 ⌈(tEnd - t₀) / s - 1.0e-6⌉₊ then t₀ + ((k : ℕ) + 1) * s
          else tEnd)) :=
  ⟨fun _ _ _ _ _ _ _ hi hS hc => Propagator.acceptedStates_schedule hi hS hc,
    fun _ _ _ ts hs ht => schedule_real hs ht ts⟩

/-- A run of one time unit with steps of `0.3`: three whole steps, then one cut to the end. -/
theorem schedule_three_tenths :
    (0 : ℝ) < 0.3 ∧ (0 : ℝ) < 1 ∧ Schedule (1 : ℝ) 0.3 0 [0.3, 0.6, 0.9, 1] := by
  have hceil : ⌈((1 : ℝ) - 0) / 0.3 - 1.0e-6⌉₊ = 4 := by
    rw [Nat.ceil_eq_iff (by norm_num)]
    norm_num
  refine ⟨by norm_num, by norm_num,
    (fixed_step_schedule.2 1 0.3 0 _ (by norm_num) (by norm_num)).mpr ?_⟩
  rw [hceil]
  simp [List.ofFn_succ]
  norm_num

end Spacecraft
