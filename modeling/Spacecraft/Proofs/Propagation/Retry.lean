import Mathlib
import Spacecraft.Propagation.Propagator

/-!
# Retrying a refused step

An adaptive method may refuse a trial step. A run then tries again from the same time and
state with half the step, and gives up with divergence once the refusals in a row pass
`maxRejections`. This module says what that retry loop (`Propagator.attemptHalving`) returns
in terms of the trials alone: the `j`-th trial has the first step halved `j` times
(`Integrator.halved`), `Integrator.refusals` counts the refused trials before the first one
that is not refused, and the loop returns the outcome of that trial with its step and the
count, or divergence when every allowed trial is refused (`attemptHalving_eq`).
-/

namespace Spacecraft

/-- Whether a fault is the refusal of a trial step. -/
def Fault.isRefusal : Fault → Bool
  | .stepRejected .. => true
  | _ => false

/-- `h` halved `j` times: the step of the `j`-th trial. -/
def halved (h : Float) (j : Nat) : Float := (· / 2)^[j] h

@[simp] theorem halved_zero (h : Float) : halved h 0 = h := rfl

theorem halved_succ (h : Float) (j : Nat) : halved h (j + 1) = halved (h / 2) j :=
  Function.iterate_succ_apply _ _ _

namespace Integrator

variable (i : Integrator) (f : RateFunction) (t : Float) (y : List Float)

/-- Whether the method refuses a trial of step `h`. -/
def refuses (h : Float) : Bool :=
  match i.attempt f t y h with
  | .error e => e.isRefusal
  | .ok _ => false

/-- The number of refused trials in a row, out of at most `n`, the first of step `h`. -/
def refusals : Float → Nat → Nat
  | _, 0 => 0
  | h, n + 1 => if i.refuses f t y h then refusals (h / 2) n + 1 else 0

theorem refusals_le (h : Float) (n : Nat) : i.refusals f t y h n ≤ n := by
  induction n generalizing h with
  | zero => exact le_rfl
  | succ n ih =>
    rw [refusals]
    split_ifs
    · exact Nat.succ_le_succ (ih _)
    · exact Nat.zero_le _

/-- Every trial before the count is refused. -/
theorem refuses_of_lt_refusals {h : Float} {n j : Nat} (hj : j < i.refusals f t y h n) :
    i.refuses f t y (halved h j) = true := by
  induction n generalizing h j with
  | zero => exact absurd hj (Nat.not_lt_zero _)
  | succ n ih =>
    rw [refusals] at hj
    split_ifs at hj with hr
    · cases j with
      | zero => exact hr
      | succ j => rw [halved_succ]; exact ih (by omega)
    · exact absurd hj (Nat.not_lt_zero _)

/-- The trial at the count, when it is within the bound, is not refused. -/
theorem not_refuses_at_refusals {h : Float} {n : Nat} (hn : i.refusals f t y h n < n) :
    i.refuses f t y (halved h (i.refusals f t y h n)) = false := by
  induction n generalizing h with
  | zero => exact absurd hn (Nat.not_lt_zero _)
  | succ n ih =>
    rw [refusals] at hn ⊢
    split_ifs with hr
    · rw [halved_succ]; exact ih (by rw [if_pos hr] at hn; omega)
    · simpa using hr

/-- The count reaches its bound exactly when every allowed trial is refused. -/
theorem refusals_eq_iff {h : Float} {n : Nat} :
    i.refusals f t y h n = n ↔ ∀ j < n, i.refuses f t y (halved h j) = true := by
  constructor
  · intro hn j hj
    exact i.refuses_of_lt_refusals f t y (hn ▸ hj)
  · intro hall
    by_contra hne
    have hlt := lt_of_le_of_ne (i.refusals_le f t y h n) hne
    have := i.not_refuses_at_refusals f t y hlt
    rw [hall _ hlt] at this
    exact Bool.noConfusion this

end Integrator

namespace Propagator

variable (p : Propagator) (f : RateFunction) (t : Float) (y : List Float)

/-- One trial of the retry loop: a refusal is retried with half the step unless it is one
refusal too many; any other outcome ends the loop. -/
theorem attemptHalving_succ (fuel : Nat) (h : Float) (j : Nat) :
    p.attemptHalving f t y (fuel + 1) h j =
      if p.integrator.refuses f t y h then
        if (j + 1 : Int) > p.limits.maxRejections then
          .error (.divergence (toString (j + 1) ++ " consecutive step rejections") (some t))
        else p.attemptHalving f t y fuel (h / 2) (j + 1)
      else (p.integrator.attempt f t y h).map (fun o => (o, h, j)) := by
  rw [attemptHalving]
  unfold Integrator.refuses
  split
  · next o ho => rw [ho]; rfl
  · next _ _ _ ho => rw [ho]; rfl
  · next e he ho =>
    rw [ho]
    cases e <;> first | rfl | exact absurd rfl (he _ _ _)

/-- The retry loop with `m + 1` trials left after `j` refusals, when the two add up to the
trials it is allowed. -/
theorem attemptHalving_of_count (m : Nat) {j : Nat} (h : Float)
    (hj : j + (m + 1) = p.limits.maxRejections.toNat + 1) :
    p.attemptHalving f t y (m + 1) h j =
      if p.integrator.refusals f t y h (m + 1) < m + 1 then
        (p.integrator.attempt f t y (halved h (p.integrator.refusals f t y h (m + 1)))).map
          (fun o => (o, halved h (p.integrator.refusals f t y h (m + 1)),
            j + p.integrator.refusals f t y h (m + 1)))
      else .error (.divergence (toString (j + (m + 1)) ++ " consecutive step rejections") (some t)) := by
  induction m generalizing h j with
  | zero =>
    -- the last allowed trial: one more refusal is one too many
    have hover : (j + 1 : Int) > p.limits.maxRejections := by
      have := Int.self_le_toNat p.limits.maxRejections
      omega
    rw [attemptHalving_succ, Integrator.refusals]
    by_cases hr : p.integrator.refuses f t y h
    · simp [hr, hover, Integrator.refusals]
    · simp [hr]
  | succ m ih =>
    -- another refusal is still allowed, and the loop goes on with half the step
    have hok : ¬ (j + 1 : Int) > p.limits.maxRejections := by
      have := Int.toNat_of_nonneg (show (0 : Int) ≤ p.limits.maxRejections by omega)
      omega
    rw [attemptHalving_succ, ih (h / 2) (by omega)]
    by_cases hr : p.integrator.refuses f t y h
    · have hk : p.integrator.refusals f t y h (m + 1 + 1) =
          p.integrator.refusals f t y (h / 2) (m + 1) + 1 := by
        rw [Integrator.refusals, if_pos hr]
      rw [if_pos hr, if_neg hok, hk, halved_succ,
        show j + (m + 1 + 1) = j + 1 + (m + 1) by omega]
      simp only [Nat.add_lt_add_iff_right, Nat.add_assoc, Nat.add_comm 1]
    · have hk : p.integrator.refusals f t y h (m + 1 + 1) = 0 := by
        rw [Integrator.refusals, if_neg hr]
      simp [hr, hk]

/-- The retry loop of a step: the outcome of the first trial that is not refused, with its
step and the number of refusals before it; divergence when all `maxRejections + 1` trials
are refused. -/
theorem attemptHalving_eq (h : Float) :
    p.attemptHalving f t y (p.limits.maxRejections.toNat + 1) h 0 =
      if p.integrator.refusals f t y h (p.limits.maxRejections.toNat + 1) <
          p.limits.maxRejections.toNat + 1 then
        (p.integrator.attempt f t y
            (halved h (p.integrator.refusals f t y h (p.limits.maxRejections.toNat + 1)))).map
          (fun o => (o, halved h (p.integrator.refusals f t y h (p.limits.maxRejections.toNat + 1)),
            p.integrator.refusals f t y h (p.limits.maxRejections.toNat + 1)))
      else .error (.divergence (toString (p.limits.maxRejections.toNat + 1) ++
        " consecutive step rejections") (some t)) := by
  rw [attemptHalving_of_count p f t y _ h (Nat.zero_add _)]
  simp only [Nat.zero_add]

end Propagator

end Spacecraft
