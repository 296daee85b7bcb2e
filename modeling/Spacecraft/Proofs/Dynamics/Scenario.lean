import Mathlib
import Spacecraft.Dynamics.Torque
import Spacecraft.Proofs.Binary64.Special

/-!
# The schedule of a torque scenario

A scenario applies at each time the direction of the first of its steps whose half-open window
`[start, start + duration)` holds the time, times its intensity, and nothing when no window does
(`torque_first_active`). The times at which the torque may switch are the starts and the ends of
the windows, each once and in increasing order (`boundaries_increasing`). Between two consecutive
boundaries no window opens or closes, so every step is active throughout or not at all and the
torque stays what it is at the earlier boundary; before the first boundary and from the last one
on no step is active and the torque is zero (`scenario_schedule`).

The comparisons are those of binary64. A float other than NaN has a place on the number line, its
rank, and such floats compare as their places do. Finite starts and durations make every start and
every end a number, even when an end overflows, so the boundaries are points of that line and the
argument is one about a strictly increasing list of integers.
-/

namespace Spacecraft

open Binary64

/-! ### Strictly increasing lists -/

namespace Schedule

variable {R : List Int}

theorem getElem_le_getElem (hR : R.Pairwise (· < ·)) {a b : Nat} (hab : a ≤ b)
    (hb : b < R.length) : R[a] ≤ R[b] := by
  rcases Nat.lt_or_eq_of_le hab with h | rfl
  · exact le_of_lt (List.pairwise_iff_getElem.1 hR a b (by omega) hb h)
  · exact le_rfl

/-- In a strictly increasing list no entry lies strictly between two consecutive ones. -/
theorem le_or_le_of_consecutive (hR : R.Pairwise (· < ·)) {i : Nat} {r r' v : Int}
    (h : R[i]? = some r) (h' : R[i + 1]? = some r') (hv : v ∈ R) : v ≤ r ∨ r' ≤ v := by
  obtain ⟨j, hj, rfl⟩ := List.getElem_of_mem hv
  obtain ⟨hi, rfl⟩ := List.getElem?_eq_some_iff.1 h
  obtain ⟨hi', rfl⟩ := List.getElem?_eq_some_iff.1 h'
  rcases Nat.lt_or_ge i j with hij | hij
  · exact .inr (getElem_le_getElem hR hij hj)
  · exact .inl (getElem_le_getElem hR hij hi)

theorem head_le (hR : R.Pairwise (· < ·)) {r v : Int} (h : R.head? = some r) (hv : v ∈ R) :
    r ≤ v := by
  obtain ⟨j, hj, rfl⟩ := List.getElem_of_mem hv
  rw [List.head?_eq_getElem?] at h
  obtain ⟨h0, rfl⟩ := List.getElem?_eq_some_iff.1 h
  exact getElem_le_getElem hR (Nat.zero_le j) hj

theorem le_getLast (hR : R.Pairwise (· < ·)) {r v : Int} (h : R.getLast? = some r) (hv : v ∈ R) :
    v ≤ r := by
  obtain ⟨j, hj, rfl⟩ := List.getElem_of_mem hv
  rw [List.getLast?_eq_getElem?] at h
  obtain ⟨hl, rfl⟩ := List.getElem?_eq_some_iff.1 h
  exact getElem_le_getElem hR (by omega) hl

end Schedule

namespace Scenario

/-- The place of a float on the number line: its rank. -/
def place (x : Float) : Int := rank (view x)

/-! ### The first active step -/

theorem isActive_iff (st : ScenarioStep) (t : Float) :
    st.isActive t = true ↔ st.start ≤ t ∧ t < st.start + st.duration := by
  simp [ScenarioStep.isActive]

/-- The torque is the intensity times the direction of the first step whose window holds `t`,
and zero when no window does. -/
theorem torque_first_active (s : Scenario) (t : Float) :
    (s.torque t = Vec3.zero ∧ ∀ st ∈ s.steps, ¬ (st.start ≤ t ∧ t < st.start + st.duration)) ∨
    ∃ (i : Nat) (h : i < s.steps.length),
      (s.steps[i].start ≤ t ∧ t < s.steps[i].start + s.steps[i].duration) ∧
      (∀ j (hj : j < i), ¬ (s.steps[j].start ≤ t ∧ t < s.steps[j].start + s.steps[j].duration)) ∧
      s.torque t = Vec3.smul s.intensity s.steps[i].direction := by
  unfold torque
  cases hf : s.steps.find? (·.isActive t) with
  | none =>
    refine .inl ⟨rfl, fun st hst => (isActive_iff st t).not.1 ?_⟩
    exact List.find?_eq_none.1 hf st hst
  | some st =>
    obtain ⟨hact, i, hi, rfl, hfirst⟩ := List.find?_eq_some_iff_getElem.1 hf
    refine .inr ⟨i, hi, (isActive_iff _ t).1 hact, fun j hj => (isActive_iff _ t).not.1 ?_, rfl⟩
    simpa using hfirst j hj

/-- Two times at which the same steps are active get the same torque. -/
theorem torque_congr (s : Scenario) {t t' : Float}
    (h : ∀ st ∈ s.steps, st.isActive t = st.isActive t') : s.torque t = s.torque t' := by
  unfold torque
  rw [List.find?_congr h]

theorem torque_eq_zero (s : Scenario) {t : Float} (h : ∀ st ∈ s.steps, st.isActive t = false) :
    s.torque t = Vec3.zero := by
  unfold torque
  rw [List.find?_eq_none.2 fun st hst => by simp [h st hst]]

/-! ### The boundaries -/

/-- One step of the scan that keeps the first of equal times. -/
def keepFirst (acc : List Float) (x : Float) : List Float :=
  if acc.any (· == x) then acc else acc ++ [x]

/-- The starts and then the ends of the windows, in the order of the steps. -/
def times (s : Scenario) : List Float :=
  s.steps.map (·.start) ++ s.steps.map (fun st => st.start + st.duration)

theorem boundaries_eq (s : Scenario) :
    s.boundaries = (s.times.foldl keepFirst []).mergeSort (fun a b => decide (a ≤ b)) := rfl

theorem subset_foldl_keepFirst (xs : List Float) {acc : List Float} :
    acc ⊆ xs.foldl keepFirst acc := by
  induction xs generalizing acc with
  | nil => exact List.Subset.refl acc
  | cons x xs ih =>
    refine List.Subset.trans ?_ (@ih (keepFirst acc x))
    unfold keepFirst
    split
    · exact List.Subset.refl acc
    · exact List.subset_append_left acc [x]

/-- The scan keeps only times it was given. -/
theorem mem_foldl_keepFirst {xs acc : List Float} {y : Float}
    (hy : y ∈ xs.foldl keepFirst acc) : y ∈ acc ∨ y ∈ xs := by
  induction xs generalizing acc with
  | nil => exact .inl hy
  | cons x xs ih =>
    rcases ih hy with h | h
    · unfold keepFirst at h
      split at h
      · exact .inl h
      · rcases List.mem_append.1 h with h | h
        · exact .inl h
        · exact .inr (List.mem_cons.2 (.inl (List.mem_singleton.1 h)))
    · exact .inr (List.mem_cons_of_mem x h)

/-- Every time scanned has a time of its place among those kept: itself, or an equal one kept
before it. -/
theorem exists_place_foldl_keepFirst {xs acc : List Float} {x : Float} (hx : x ∈ acc ++ xs) :
    ∃ y ∈ xs.foldl keepFirst acc, place y = place x := by
  induction xs generalizing acc x with
  | nil => exact ⟨x, by simpa using hx, rfl⟩
  | cons z xs ih =>
    -- first a kept time of the place of `x` after the turn of `z`
    have hstep : ∃ y ∈ keepFirst acc z ++ xs, place y = place x := by
      rcases List.mem_append.1 hx with hx | hx
      · exact ⟨x, List.mem_append_left _ (subset_foldl_keepFirst [z] hx), rfl⟩
      rcases List.mem_cons.1 hx with rfl | hx
      · unfold keepFirst
        split
        · next hany =>
          obtain ⟨y, hy, hyx⟩ := List.any_eq_true.1 hany
          refine ⟨y, List.mem_append_left _ hy, ?_⟩
          exact (beq_iff_rank (ne_nan_of_beq_left hyx) (ne_nan_of_beq_right hyx)).1 hyx
        · exact ⟨x, by simp, rfl⟩
      · exact ⟨x, List.mem_append_right _ hx, rfl⟩
    obtain ⟨y, hy, hyx⟩ := hstep
    obtain ⟨y', hy', hyy⟩ := ih hy
    exact ⟨y', hy', hyy.trans hyx⟩

/-- Of times that are all numbers, the scan keeps times of distinct places. -/
theorem nodup_foldl_keepFirst {xs acc : List Float} (hacc : (acc.map place).Nodup)
    (hnan : ∀ x ∈ acc ++ xs, view x ≠ .notANumber) :
    ((xs.foldl keepFirst acc).map place).Nodup := by
  induction xs generalizing acc with
  | nil => simpa using hacc
  | cons z xs ih =>
    have hz : view z ≠ .notANumber := hnan z (by simp)
    refine ih ?_ fun x hx => ?_
    · unfold keepFirst
      split
      · exact hacc
      · next hany =>
        rw [List.map_append, List.map_singleton, List.nodup_append]
        refine ⟨hacc, List.nodup_singleton _, fun a ha b hb hyz => ?_⟩
        obtain ⟨y, hy, rfl⟩ := List.mem_map.1 ha
        rw [List.mem_singleton.1 hb] at hyz
        have hy' : view y ≠ .notANumber := hnan y (List.mem_append_left _ hy)
        exact hany (List.any_eq_true.2 ⟨y, hy, (beq_iff_rank hy' hz).2 hyz⟩)
    · rcases List.mem_append.1 hx with hx | hx
      · rcases @mem_foldl_keepFirst [z] _ _ hx with hx | hx
        · exact hnan x (List.mem_append_left _ hx)
        · exact hnan x (by simp_all)
      · exact hnan x (by simp [hx])

variable {s : Scenario}

/-- Every start and every end of a window with a finite start and a finite duration is a number. -/
theorem times_ne_nan (hs : ∀ st ∈ s.steps, st.start.isFinite ∧ st.duration.isFinite) :
    ∀ x ∈ s.times, view x ≠ .notANumber := by
  intro x hx
  rcases List.mem_append.1 hx with hx | hx
  · obtain ⟨st, hst, rfl⟩ := List.mem_map.1 hx
    exact ne_nan_of_isFinite (hs st hst).1
  · obtain ⟨st, hst, rfl⟩ := List.mem_map.1 hx
    exact add_ne_nan (ne_nan_of_isFinite (hs st hst).1) (hs st hst).2

/-- Every start and every end is, up to the sign of a zero, one of the boundaries. -/
theorem place_mem_boundaries (s : Scenario) {x : Float} (hx : x ∈ s.times) :
    place x ∈ s.boundaries.map place := by
  obtain ⟨y, hy, hyx⟩ := @exists_place_foldl_keepFirst _ [] _ (by simpa using hx)
  rw [← hyx, boundaries_eq]
  exact List.mem_map_of_mem (List.mem_mergeSort.2 hy)

theorem start_mem {st : ScenarioStep} (hst : st ∈ s.steps) :
    place st.start ∈ s.boundaries.map place :=
  place_mem_boundaries s (List.mem_append_left _ (List.mem_map_of_mem hst))

theorem end_mem {st : ScenarioStep} (hst : st ∈ s.steps) :
    place (st.start + st.duration) ∈ s.boundaries.map place :=
  place_mem_boundaries s (List.mem_append_right _ (List.mem_map_of_mem (f := fun st =>
    st.start + st.duration) hst))

section Finite

variable (hs : ∀ st ∈ s.steps, st.start.isFinite ∧ st.duration.isFinite)
include hs

theorem boundaries_ne_nan : ∀ b ∈ s.boundaries, view b ≠ .notANumber := by
  intro b hb
  rw [boundaries_eq, List.mem_mergeSort] at hb
  rcases mem_foldl_keepFirst hb with hb | hb
  · cases hb
  · exact times_ne_nan hs b hb

/-- The places of the boundaries are strictly increasing. -/
theorem places_increasing : (s.boundaries.map place).Pairwise (· < ·) := by
  have hkept := @nodup_foldl_keepFirst s.times [] List.nodup_nil
    (fun x hx => times_ne_nan hs x (by simpa using hx))
  -- sorting the kept times sorts their places, which the integers order totally
  have hmap : s.boundaries.map place =
      ((s.times.foldl keepFirst []).map place).mergeSort (fun a b => decide (a ≤ b)) := by
    rw [boundaries_eq]
    refine List.map_mergeSort fun a ha b hb => ?_
    have hna := boundaries_ne_nan hs a (by rw [boundaries_eq, List.mem_mergeSort]; exact ha)
    have hnb := boundaries_ne_nan hs b (by rw [boundaries_eq, List.mem_mergeSort]; exact hb)
    exact decide_eq_decide.2 (le_iff_rank hna hnb)
  have hsorted := @List.pairwise_mergeSort _ (fun a b : Int => decide (a ≤ b))
    (fun a b c hab hbc => by simp only [decide_eq_true_eq] at *; omega)
    (fun a b => by simpa using le_total a b) ((s.times.foldl keepFirst []).map place)
  have hnodup : (s.boundaries.map place).Nodup := by
    rw [hmap]
    exact (List.mergeSort_perm _ _).nodup_iff.2 hkept
  rw [← hmap] at hsorted
  exact (hsorted.and hnodup).imp fun ⟨hle, hne⟩ => lt_of_le_of_ne (by simpa using hle) hne

/-- The boundaries are strictly increasing. -/
theorem boundaries_increasing : s.boundaries.Pairwise (· < ·) := by
  have h := List.pairwise_map.1 (places_increasing hs)
  exact h.imp_of_mem fun ha hb hab =>
    (lt_iff_rank (boundaries_ne_nan hs _ ha) (boundaries_ne_nan hs _ hb)).2 hab

/-- Whether a step acts at a time other than NaN is a comparison of places. -/
theorem isActive_iff_place {st : ScenarioStep} (hst : st ∈ s.steps) {t : Float}
    (ht : view t ≠ .notANumber) :
    st.isActive t = true ↔
      place st.start ≤ place t ∧ place t < place (st.start + st.duration) := by
  have hx := times_ne_nan hs st.start (List.mem_append_left _ (List.mem_map_of_mem hst))
  have he := times_ne_nan hs (st.start + st.duration)
    (List.mem_append_right _ (List.mem_map_of_mem (f := fun st => st.start + st.duration) hst))
  rw [isActive_iff, le_iff_rank hx ht, lt_iff_rank ht he]
  rfl

/-- Between two consecutive boundaries every step is active throughout or not at all. -/
theorem isActive_between {i : Nat} {b b' t : Float} (hb : s.boundaries[i]? = some b)
    (hb' : s.boundaries[i + 1]? = some b') (hbt : b ≤ t) (htb : t < b') {st : ScenarioStep}
    (hst : st ∈ s.steps) : st.isActive t = st.isActive b := by
  have hR := places_increasing hs
  have hp : (s.boundaries.map place)[i]? = some (place b) := by simp [hb]
  have hp' : (s.boundaries.map place)[i + 1]? = some (place b') := by simp [hb']
  have hnb := ne_nan_of_le_left hbt
  have hnt := ne_nan_of_le_right hbt
  have hbt' : place b ≤ place t := (le_iff_rank hnb hnt).1 hbt
  have htb' : place t < place b' := (lt_iff_rank hnt (ne_nan_of_lt_right htb)).1 htb
  -- the start and the end of the window each lie at or before `b` or at or after `b'`
  have h0 := Schedule.le_or_le_of_consecutive hR hp hp' (start_mem hst)
  have h1 := Schedule.le_or_le_of_consecutive hR hp hp' (end_mem hst)
  rw [Bool.eq_iff_iff, isActive_iff_place hs hst hnt, isActive_iff_place hs hst hnb]
  omega

/-- Before the first boundary no step is active. -/
theorem isActive_before {b t : Float} (hb : s.boundaries.head? = some b) (htb : t < b)
    {st : ScenarioStep} (hst : st ∈ s.steps) : st.isActive t = false := by
  have hnt := ne_nan_of_lt_left htb
  have htb' : place t < place b := (lt_iff_rank hnt (ne_nan_of_lt_right htb)).1 htb
  have h0 := Schedule.head_le (places_increasing hs) (r := place b) (by simp [hb]) (start_mem hst)
  rw [← Bool.not_eq_true, isActive_iff_place hs hst hnt]
  omega

/-- From the last boundary on no step is active. -/
theorem isActive_after {b t : Float} (hb : s.boundaries.getLast? = some b) (hbt : b ≤ t)
    {st : ScenarioStep} (hst : st ∈ s.steps) : st.isActive t = false := by
  have hnt := ne_nan_of_le_right hbt
  have hbt' : place b ≤ place t := (le_iff_rank (ne_nan_of_le_left hbt) hnt).1 hbt
  have h1 := Schedule.le_getLast (places_increasing hs) (r := place b)
    (by simp [List.getLast?_map, hb])
    (end_mem hst)
  rw [← Bool.not_eq_true, isActive_iff_place hs hst hnt]
  omega

end Finite

/-- What the schedule of a scenario promises: the first active step decides the torque; the
boundaries are strictly increasing; between consecutive boundaries the torque is the one at the
earlier boundary; before the first and from the last boundary on it is zero. -/
structure Scheduled (s : Scenario) : Prop where
  firstActive : ∀ t, (s.torque t = Vec3.zero ∧
      ∀ st ∈ s.steps, ¬ (st.start ≤ t ∧ t < st.start + st.duration)) ∨
    ∃ (i : Nat) (h : i < s.steps.length),
      (s.steps[i].start ≤ t ∧ t < s.steps[i].start + s.steps[i].duration) ∧
      (∀ j (hj : j < i), ¬ (s.steps[j].start ≤ t ∧ t < s.steps[j].start + s.steps[j].duration)) ∧
      s.torque t = Vec3.smul s.intensity s.steps[i].direction
  increasing : s.boundaries.Pairwise (· < ·)
  constantBetween : ∀ (i : Nat) (b b' : Float), s.boundaries[i]? = some b →
    s.boundaries[i + 1]? = some b' → ∀ t, b ≤ t → t < b' → s.torque t = s.torque b
  zeroBefore : ∀ b, s.boundaries.head? = some b → ∀ t, t < b → s.torque t = Vec3.zero
  zeroAfter : ∀ b, s.boundaries.getLast? = some b → ∀ t, b ≤ t → s.torque t = Vec3.zero

/-- A scenario of finite starts and durations keeps its schedule. -/
theorem scenario_schedule (s : Scenario)
    (hs : ∀ st ∈ s.steps, st.start.isFinite ∧ st.duration.isFinite) : s.Scheduled where
  firstActive := torque_first_active s
  increasing := boundaries_increasing hs
  constantBetween _ _ _ hb hb' _ hbt htb :=
    s.torque_congr fun _ hst => isActive_between hs hb hb' hbt htb hst
  zeroBefore _ hb _ htb := s.torque_eq_zero fun _ hst => isActive_before hs hb htb hst
  zeroAfter _ hb _ hbt := s.torque_eq_zero fun _ hst => isActive_after hs hb hbt hst

/-- Two overlapping steps, the first winning where they overlap. -/
theorem overlapping_steps_scheduled :
    (∀ st ∈ [(⟨0.0, 10.0, ⟨0.0, 1.0, 0.0⟩⟩ : ScenarioStep), ⟨5.0, 10.0, ⟨0.0, 0.0, 1.0⟩⟩],
      st.start.isFinite ∧ st.duration.isFinite) ∧
      (⟨[⟨0.0, 10.0, ⟨0.0, 1.0, 0.0⟩⟩, ⟨5.0, 10.0, ⟨0.0, 0.0, 1.0⟩⟩], 1.0, "overlap"⟩ :
        Scenario).Scheduled :=
  have h : ∀ st ∈ [(⟨0.0, 10.0, ⟨0.0, 1.0, 0.0⟩⟩ : ScenarioStep), ⟨5.0, 10.0, ⟨0.0, 0.0, 1.0⟩⟩],
      st.start.isFinite ∧ st.duration.isFinite := by
    decide
  ⟨h, scenario_schedule ⟨_, 1.0, "overlap"⟩ h⟩

end Scenario

end Spacecraft
