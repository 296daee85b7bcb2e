import Mathlib
import Spacecraft.Environment.Atmosphere
import Spacecraft.Proofs.Binary64.Order
import Spacecraft.Proofs.Exact.Elementary

/-!
# The density profile of the atmosphere

The density at an altitude is written here once more over any `Scalar` with the exponential:
the band of the altitude is the last whose base it is not below, and inside a band the density
falls from the band's base density with the band's scale height; above the ceiling it is zero.
At `Float` this is the model's density at every altitude it does not refuse, and the model
refuses exactly the altitudes below the valid range (`Atmosphere.density_eq`); the field at a
position is the density at its altitude (`Atmosphere.field_eq`).

Over the real numbers the table's decimals are exact. Inside a band the density decreases, and
above the ceiling it vanishes; between two altitudes it can rise only at the base of a band,
where the table's base density may exceed what the band below reaches there
(`bandDensity_antitone`). That happens: at 25 km the density of the table rises by about a
seventh of a percent (`density_rises_at_second_base`).
-/

namespace Spacecraft

open Binary64 Filter Topology

namespace AtmosphereBand

theorem table_length {K : Type} [OfScientific K] : (table (K := K)).length = 28 := rfl

section Reading

variable {K : Type} [Scalar K]

/-- The base of a band, in metres. -/
def baseAltitude (band : AtmosphereBand K) : K := band.base * 1000.0

/-- The density in a band at an altitude [m], falling exponentially above the band's base. -/
def densityAt [Elementary K] (band : AtmosphereBand K) (h : K) : K :=
  band.density * Elementary.exp (-(h - band.baseAltitude) / (band.scaleHeight * 1000.0))

/-- The band of an index. -/
def bandAt [Inhabited K] (i : Nat) : AtmosphereBand K := table.getD i default

variable [LT K] [DecidableLT K]

/-- The number of bases an altitude [m] is not below; an undefined altitude is below none. -/
def basesBelow (h : K) : Nat :=
  ((table (K := K)).filter fun b => !decide (h < b.baseAltitude)).length

/-- The index of the band of an altitude: the last band whose base is not above it, or the
first band below every base. -/
def bandIndex (h : K) : Nat := basesBelow h - 1

/-- The density of the band an altitude falls in. -/
def bandDensity [Elementary K] [Inhabited K] (h : K) : K := (bandAt (bandIndex h)).densityAt h

theorem basesBelow_le (h : K) : basesBelow h ≤ 28 :=
  (List.length_filter_le _ _).trans_eq table_length

theorem bandIndex_lt (h : K) : bandIndex h < 28 := by
  have := basesBelow_le h
  unfold bandIndex
  omega

end Reading

/-! ### The model's band at `Float` -/

theorem baseAltitude_ne_nan : ∀ b ∈ table (K := Float), view b.baseAltitude ≠ .notANumber := by
  intro b hb
  apply isNaN_eq_false_iff.1
  revert b
  decide

/-- The model's band index is the number of bases an altitude is not below, less one: for a
number both count the bases not above it, and a NaN is below no base and takes the last band. -/
theorem indexOf_eq_bandIndex (h : Float) : indexOf h = bandIndex h := by
  unfold indexOf bandIndex basesBelow
  cases hn : h.isNaN
  · simp only [Bool.false_eq_true, if_false]
    congr 2
    apply List.filter_congr
    intro b hb
    have hb' := baseAltitude_ne_nan b hb
    have hh := isNaN_eq_false_iff.1 hn
    show decide (b.baseAltitude ≤ h) = _
    rw [Bool.eq_iff_iff, decide_eq_true_iff, Bool.not_eq_true', decide_eq_false_iff_not,
      le_iff_rank hb' hh, lt_iff_rank hh hb']
    exact Int.not_lt.symm
  · have hnan := isNaN_eq_true_iff.1 hn
    simp only [if_true]
    rw [List.filter_eq_self.2 fun b _ => by simp [not_lt_of_nan_left _ hnan]]

theorem ofAltitude_eq_bandAt (h : Float) : ofAltitude h = bandAt (bandIndex h) := by
  rw [ofAltitude, indexOf_eq_bandIndex]
  rfl

/-! ### The bands over the real numbers -/

section Real

/-- In a strictly increasing list, a number is not below the `k`-th entry exactly when more than
`k` entries are not above it. -/
theorem lt_length_filter_iff {l : List ℝ} (hl : l.Pairwise (· < ·)) (h : ℝ) {k : Nat}
    (hk : k < l.length) : k < (l.filter fun x => !decide (h < x)).length ↔ l[k] ≤ h := by
  induction l generalizing k with
  | nil => exact absurd hk (Nat.not_lt_zero k)
  | cons a t ih =>
    obtain ⟨ha, ht⟩ := List.pairwise_cons.1 hl
    by_cases hlt : h < a
    · -- every entry is above `a`, so none is counted and none is below `h`
      have hnil : (t.filter fun x => !decide (h < x)) = [] :=
        List.filter_eq_nil_iff.2 fun x hx => by simp [hlt.trans (ha x hx)]
      rw [List.filter_cons_of_neg (by simp [hlt]), hnil]
      cases k with
      | zero => simpa using hlt
      | succ j => simpa using hlt.trans (ha _ (List.getElem_mem _))
    · rw [List.filter_cons_of_pos (by simpa using hlt)]
      cases k with
      | zero => simpa using hlt
      | succ j =>
        simp only [List.length_cons, Nat.add_lt_add_iff_right, List.getElem_cons_succ]
        exact ih ht (by simpa using hk)

theorem bandAt_eq_getElem {K : Type} [Scalar K] [Inhabited K] {i : Nat}
    (hi : i < (table (K := K)).length) : bandAt i = (table (K := K))[i] :=
  List.getD_eq_getElem _ _ hi

theorem bandAt_mem {K : Type} [Scalar K] [Inhabited K] {i : Nat} (hi : i < 28) :
    bandAt i ∈ (table (K := K)) := by
  rw [bandAt_eq_getElem (by rw [table_length]; exact hi)]
  exact List.getElem_mem _

/-- Every band of the table has a positive base density and a positive scale height. -/
theorem table_pos : ∀ b ∈ (table : List (AtmosphereBand ℝ)), 0 < b.density ∧ 0 < b.scaleHeight := by
  simp only [table, List.forall_mem_cons, List.not_mem_nil, IsEmpty.forall_iff, implies_true,
    and_true]
  norm_num

/-- The bases of the table strictly increase. -/
theorem baseAltitudes_increasing :
    ((table : List (AtmosphereBand ℝ)).map baseAltitude).Pairwise (· < ·) := by
  apply List.IsChain.pairwise
  simp only [table, List.map_cons, List.map_nil, List.isChain_cons_cons, List.isChain_singleton,
    and_true]
  norm_num [baseAltitude]

theorem bandAt_pos {i : Nat} (hi : i < 28) :
    0 < (bandAt i : AtmosphereBand ℝ).density ∧ 0 < (bandAt i : AtmosphereBand ℝ).scaleHeight :=
  table_pos _ (bandAt_mem hi)

theorem baseAltitude_strictMono {i j : Nat} (hij : i < j) (hj : j < 28) :
    (bandAt i : AtmosphereBand ℝ).baseAltitude < (bandAt j).baseAltitude := by
  have hi' : i < (table : List (AtmosphereBand ℝ)).length := by rw [table_length]; omega
  have hj' : j < (table : List (AtmosphereBand ℝ)).length := by rw [table_length]; exact hj
  have hbases := List.pairwise_iff_getElem.1 baseAltitudes_increasing i j
    (by rwa [List.length_map]) (by rwa [List.length_map]) hij
  rwa [List.getElem_map, List.getElem_map, ← bandAt_eq_getElem hi', ← bandAt_eq_getElem hj']
    at hbases

theorem baseAltitude_lt_succ {i : Nat} (hi : i + 1 < 28) :
    (bandAt i : AtmosphereBand ℝ).baseAltitude < (bandAt (i + 1)).baseAltitude :=
  baseAltitude_strictMono (Nat.lt_succ_self i) hi

/-- The bases are counted in order: more than `k` of them are not above an altitude exactly when
the base of band `k` is not. -/
theorem lt_basesBelow_iff (h : ℝ) {k : Nat} (hk : k < 28) :
    k < basesBelow h ↔ (bandAt k : AtmosphereBand ℝ).baseAltitude ≤ h := by
  have hcount : basesBelow h =
      (((table (K := ℝ)).map baseAltitude).filter fun x => !decide (h < x)).length := by
    rw [basesBelow, List.filter_map, List.length_map]
    rfl
  rw [hcount, lt_length_filter_iff baseAltitudes_increasing h (by simpa [table_length] using hk),
    List.getElem_map, bandAt_eq_getElem (by rw [table_length]; exact hk)]

theorem bandIndex_eq_of_mem {h : ℝ} {i : Nat} (hi : i < 28)
    (hlo : i = 0 ∨ (bandAt i : AtmosphereBand ℝ).baseAltitude ≤ h)
    (hhi : i + 1 < 28 → h < (bandAt (i + 1) : AtmosphereBand ℝ).baseAltitude) :
    bandIndex h = i := by
  have hle : basesBelow h ≤ i + 1 := by
    by_cases hlast : i + 1 < 28
    · exact Nat.not_lt.1 fun hlt =>
        absurd ((lt_basesBelow_iff h hlast).1 hlt) (not_le.2 (hhi hlast))
    · have := basesBelow_le h
      omega
  unfold bandIndex
  rcases hlo with rfl | hlo
  · omega
  · have := (lt_basesBelow_iff h hi).2 hlo
    omega

theorem lt_of_bandIndex_lt {h : ℝ} {k : Nat} (hk : k < 28) (hlt : bandIndex h < k) :
    h < (bandAt k : AtmosphereBand ℝ).baseAltitude := by
  by_contra hge
  have := (lt_basesBelow_iff h hk).2 (not_lt.1 hge)
  unfold bandIndex at hlt
  omega

theorem le_of_bandIndex_eq {h : ℝ} {k : Nat} (hk0 : 0 < k) (heq : bandIndex h = k) :
    (bandAt k : AtmosphereBand ℝ).baseAltitude ≤ h := by
  have hk := heq ▸ bandIndex_lt h
  apply (lt_basesBelow_iff h hk).1
  unfold bandIndex at heq
  omega

theorem bandIndex_mono {h₁ h₂ : ℝ} (hle : h₁ ≤ h₂) : bandIndex h₁ ≤ bandIndex h₂ := by
  have hcount : basesBelow h₁ ≤ basesBelow h₂ := by
    by_contra hgt
    rw [Nat.not_le] at hgt
    have hk : basesBelow h₂ < 28 := hgt.trans_le (basesBelow_le h₁)
    have hbase := (lt_basesBelow_iff h₁ hk).1 hgt
    exact Nat.lt_irrefl _ ((lt_basesBelow_iff h₂ hk).2 (hbase.trans hle))
  unfold bandIndex
  omega

@[simp] theorem densityAt_real (band : AtmosphereBand ℝ) (h : ℝ) :
    band.densityAt h =
      band.density * Real.exp (-(h - band.baseAltitude) / (band.scaleHeight * 1000)) := by
  norm_num [densityAt]

theorem densityAt_base (band : AtmosphereBand ℝ) :
    band.densityAt band.baseAltitude = band.density := by
  simp

theorem densityAt_antitone {band : AtmosphereBand ℝ} (hρ : 0 ≤ band.density)
    (hH : 0 < band.scaleHeight) {h₁ h₂ : ℝ} (hle : h₁ ≤ h₂) :
    band.densityAt h₂ ≤ band.densityAt h₁ := by
  rw [densityAt_real, densityAt_real]
  have hexp : -(h₂ - band.baseAltitude) / (band.scaleHeight * 1000) ≤
      -(h₁ - band.baseAltitude) / (band.scaleHeight * 1000) :=
    div_le_div_of_nonneg_right (by linarith) (by positivity)
  exact mul_le_mul_of_nonneg_left (Real.exp_le_exp.2 hexp) hρ

theorem bandAt_densityAt_antitone {i : Nat} (hi : i < 28) {h₁ h₂ : ℝ} (hle : h₁ ≤ h₂) :
    (bandAt i : AtmosphereBand ℝ).densityAt h₂ ≤ (bandAt i).densityAt h₁ :=
  densityAt_antitone (bandAt_pos hi).1.le (bandAt_pos hi).2 hle

theorem bandDensity_nonneg (h : ℝ) : 0 ≤ bandDensity h := by
  rw [bandDensity, densityAt_real]
  exact mul_nonneg (bandAt_pos (bandIndex_lt h)).1.le (Real.exp_pos _).le

/-- The density does not rise across the base of band `i`: the base density of band `i` is at
most the density band `i - 1` reaches at that base. -/
def StepsDown (i : Nat) : Prop :=
  (bandAt i : AtmosphereBand ℝ).density ≤ (bandAt (i - 1)).densityAt (bandAt i).baseAltitude

/-- Between two altitudes the density of their bands does not rise, as long as the base of every
band between them steps down. -/
theorem bandDensity_antitone {h₁ h₂ : ℝ} (hle : h₁ ≤ h₂)
    (hsteps : ∀ i, 0 < i → i < 28 → h₁ < (bandAt i : AtmosphereBand ℝ).baseAltitude →
      (bandAt i : AtmosphereBand ℝ).baseAltitude ≤ h₂ → StepsDown i) :
    bandDensity h₂ ≤ bandDensity h₁ := by
  -- induction on the band of the upper altitude, going down one base at a time
  obtain ⟨k, hk⟩ : ∃ k, bandIndex h₂ = k := ⟨_, rfl⟩
  induction k generalizing h₂ with
  | zero =>
    have h₁0 : bandIndex h₁ = 0 := by
      have := bandIndex_mono hle
      omega
    rw [bandDensity, bandDensity, hk, h₁0]
    exact bandAt_densityAt_antitone (by norm_num) hle
  | succ k ih =>
    have hk28 : k + 1 < 28 := hk ▸ bandIndex_lt h₂
    by_cases hsame : bandIndex h₁ = k + 1
    · rw [bandDensity, bandDensity, hk, hsame]
      exact bandAt_densityAt_antitone hk28 hle
    have hlt : bandIndex h₁ < k + 1 := lt_of_le_of_ne (hk ▸ bandIndex_mono hle) hsame
    set B := (bandAt (k + 1) : AtmosphereBand ℝ).baseAltitude with hB
    have hB₁ : h₁ < B := lt_of_bandIndex_lt hk28 hlt
    have hB₂ : B ≤ h₂ := le_of_bandIndex_eq (Nat.succ_pos k) hk
    -- the lowest altitude of the band below that is not under `h₁`
    set h' := max h₁ (bandAt k : AtmosphereBand ℝ).baseAltitude
    have hh'B : h' < B := max_lt hB₁ (baseAltitude_lt_succ hk28)
    have hh' : bandIndex h' = k :=
      bandIndex_eq_of_mem (by omega) (.inr (le_max_right _ _)) fun _ => hh'B
    calc bandDensity h₂ = (bandAt (k + 1)).densityAt h₂ := by rw [bandDensity, hk]
      _ ≤ (bandAt (k + 1)).densityAt B := bandAt_densityAt_antitone hk28 hB₂
      _ = (bandAt (k + 1)).density := densityAt_base _
      _ ≤ (bandAt k).densityAt B := hsteps (k + 1) (Nat.succ_pos k) hk28 hB₁ hB₂
      _ ≤ (bandAt k).densityAt h' := bandAt_densityAt_antitone (by omega) hh'B.le
      _ = bandDensity h' := by rw [bandDensity, hh']
      _ ≤ bandDensity h₁ := ih (le_max_left _ _)
          (fun i hi0 hi hi₁ hi₂ => hsteps i hi0 hi hi₁ (hi₂.trans (hh'B.le.trans hB₂))) hh'

end Real

end AtmosphereBand

namespace Atmosphere

open AtmosphereBand

/-- The density at an altitude the atmosphere accepts, over any scalar: zero above the ceiling,
and otherwise that of the altitude's band. -/
def densityOf {K : Type} [Scalar K] [LT K] [DecidableLT K] [Elementary K] [Inhabited K]
    (maxAltitude h : K) : K :=
  if h > maxAltitude then 0.0 else bandDensity h

/-- The model refuses exactly the altitudes below the valid range, and at any other altitude its
density is the density read at `Float`. -/
theorem density_eq (a : Atmosphere) (h : Float) :
    a.density h = if h < a.minAltitude then .error (a.belowRange h none none)
      else .ok (densityOf a.maxAltitude h) := by
  unfold density atAltitude densityOf bandDensity
  rw [ofAltitude_eq_bandAt]
  by_cases hmin : h < a.minAltitude
  · simp only [hmin, if_true]
    rfl
  · by_cases hmax : h > a.maxAltitude <;> simp only [hmin, hmax, if_true, if_false] <;> rfl

/-- The field at a position is the density at its altitude above the body, refused with the time
and the position exactly when that altitude is below the valid range. -/
theorem field_eq (a : Atmosphere) (t : Float) (p : Vec3) :
    a.field t p = if p.norm - a.bodyRadius < a.minAltitude then
      .error (a.belowRange (p.norm - a.bodyRadius) (some t) (some p.toList))
      else a.density (p.norm - a.bodyRadius) := by
  unfold field
  by_cases hmin : p.norm - a.bodyRadius < a.minAltitude
  · simp only [hmin, if_true]
    rfl
  · simp only [hmin, if_false]

/-! ### The profile in exact arithmetic -/

section Real

theorem densityOf_of_le {maxAltitude h : ℝ} (hmax : h ≤ maxAltitude) :
    densityOf maxAltitude h = bandDensity h := by
  rw [densityOf, if_neg (not_lt.2 hmax)]

theorem densityOf_of_lt {maxAltitude h : ℝ} (hmax : maxAltitude < h) :
    densityOf maxAltitude h = 0 := by
  rw [densityOf, if_pos hmax]
  norm_num

theorem densityOf_nonneg (maxAltitude h : ℝ) : 0 ≤ densityOf maxAltitude h := by
  rcases le_or_gt h maxAltitude with hmax | hmax
  · rw [densityOf_of_le hmax]
    exact bandDensity_nonneg h
  · rw [densityOf_of_lt hmax]

/-- The density does not rise from one altitude to a higher one when every band base between
them, below the ceiling, steps down; above the ceiling it is zero. -/
theorem densityOf_antitone {maxAltitude h₁ h₂ : ℝ} (hle : h₁ ≤ h₂)
    (hsteps : ∀ i, 0 < i → i < 28 → h₁ < (bandAt i : AtmosphereBand ℝ).baseAltitude →
      (bandAt i : AtmosphereBand ℝ).baseAltitude ≤ h₂ →
      (bandAt i : AtmosphereBand ℝ).baseAltitude ≤ maxAltitude → StepsDown i) :
    densityOf maxAltitude h₂ ≤ densityOf maxAltitude h₁ := by
  rcases le_or_gt h₂ maxAltitude with h₂max | h₂max
  · rw [densityOf_of_le h₂max, densityOf_of_le (hle.trans h₂max)]
    exact bandDensity_antitone hle fun i hi0 hi hi₁ hi₂ => hsteps i hi0 hi hi₁ hi₂ (hi₂.trans h₂max)
  · rw [densityOf_of_lt h₂max]
    exact densityOf_nonneg maxAltitude h₁

/-- Below the ceiling, the density does not rise across the base of band `i` exactly when that
base steps down: if the base density of band `i` exceeded what band `i - 1` reaches there, the
density just below the base would be less than at the base. -/
theorem stepsDown_iff {maxAltitude : ℝ} {i : Nat} (hi0 : 0 < i) (hi : i < 28)
    (hmax : (bandAt i : AtmosphereBand ℝ).baseAltitude ≤ maxAltitude) :
    StepsDown i ↔ ∀ h, (bandAt (i - 1) : AtmosphereBand ℝ).baseAltitude ≤ h →
      h < (bandAt i : AtmosphereBand ℝ).baseAltitude →
      densityOf maxAltitude (bandAt i : AtmosphereBand ℝ).baseAltitude ≤
        densityOf maxAltitude h := by
  set B := (bandAt i : AtmosphereBand ℝ).baseAltitude
  have hbelow : (bandAt (i - 1) : AtmosphereBand ℝ).baseAltitude < B := by
    have := baseAltitude_lt_succ (i := i - 1) (by omega)
    rwa [Nat.sub_add_cancel hi0] at this
  constructor
  · -- only the base of band `i` lies between such an altitude and that base
    intro hdown h hlo hhi
    refine densityOf_antitone hhi.le fun j hj0 hj hj₁ hj₂ _ => ?_
    rcases lt_trichotomy j i with hji | rfl | hji
    · have hj' : (bandAt j : AtmosphereBand ℝ).baseAltitude ≤ (bandAt (i - 1)).baseAltitude := by
        rcases Nat.lt_or_eq_of_le (Nat.le_sub_one_of_lt hji) with hlt | heq
        · exact (baseAltitude_strictMono hlt (by omega)).le
        · rw [heq]
      exact absurd hj₁ (not_lt.2 (hj'.trans hlo))
    · exact hdown
    · exact absurd hj₂ (not_le.2 (baseAltitude_strictMono hji hj))
  · intro hrise
    by_contra hup
    have hup' : (bandAt (i - 1) : AtmosphereBand ℝ).densityAt B < (bandAt i).density := not_le.1 hup
    -- band `i - 1` is continuous, so just below the base it is still under that base density
    have hcont : Continuous fun h => (bandAt (i - 1) : AtmosphereBand ℝ).densityAt h := by
      simp only [densityAt_real]
      fun_prop
    have hnear : ∀ᶠ h in 𝓝[<] B,
        (bandAt (i - 1) : AtmosphereBand ℝ).densityAt h < (bandAt i).density :=
      ((hcont.tendsto B).mono_left nhdsWithin_le_nhds).eventually (gt_mem_nhds hup')
    obtain ⟨h, hρ, ⟨hlo, hhi⟩⟩ := (hnear.and (Ioo_mem_nhdsLT hbelow)).exists
    have hB : bandIndex B = i :=
      bandIndex_eq_of_mem hi (.inr le_rfl) fun hi' => baseAltitude_lt_succ hi'
    have hh : bandIndex h = i - 1 :=
      bandIndex_eq_of_mem (by omega) (.inr hlo.le) fun _ => by rwa [Nat.sub_add_cancel hi0]
    have hle := hrise h hlo.le hhi
    rw [densityOf_of_le hmax, densityOf_of_le (hhi.le.trans hmax), bandDensity, bandDensity, hB, hh,
      densityAt_base] at hle
    exact absurd hle (not_le.2 hρ)

/-- At 25 km the density rises: just below, the first band reaches `1.225 e^(-24999/7249)`, which
is less than the second band's base density `0.03899`. -/
theorem density_rises_at_second_base :
    densityOf (1000.0e3 : ℝ) 24999 < densityOf 1000.0e3 25000 := by
  have h₀ : bandIndex (24999 : ℝ) = 0 :=
    bandIndex_eq_of_mem (by norm_num) (.inl rfl) fun _ => by norm_num [bandAt, table, baseAltitude]
  have h₁ : bandIndex (25000 : ℝ) = 1 :=
    bandIndex_eq_of_mem (by norm_num) (.inr (by norm_num [bandAt, table, baseAltitude]))
      fun _ => by norm_num [bandAt, table, baseAltitude]
  rw [densityOf_of_le (by norm_num), densityOf_of_le (by norm_num), bandDensity, bandDensity, h₀,
    h₁]
  norm_num [bandAt, table, baseAltitude]
  -- eleven terms of the exponential series at `24999/7249` already exceed `1.225/0.03899`
  have hseries := Real.sum_le_exp_of_nonneg (x := 24999 / 7249) (by norm_num) 11
  norm_num [Finset.sum_range_succ, Nat.factorial] at hseries
  rw [Real.exp_neg, ← div_eq_mul_inv, div_lt_iff₀ (Real.exp_pos _)]
  linarith

end Real

/-- The density profile of the atmosphere. In exact arithmetic the density does not rise from
one altitude to a higher one when every band base between them, below the ceiling, steps down;
across a base below the ceiling it does not rise exactly when that base steps down. In binary64
the field at a position is the density at its altitude, the two refuse exactly the altitudes
below the valid range, and every other altitude gets the density of the reading. -/
theorem density_falls_between_rising_bases (maxAltitude : ℝ) {h₁ h₂ : ℝ} (hle : h₁ ≤ h₂)
    (hsteps : ∀ i, 0 < i → i < 28 → h₁ < (bandAt i : AtmosphereBand ℝ).baseAltitude →
      (bandAt i : AtmosphereBand ℝ).baseAltitude ≤ h₂ →
      (bandAt i : AtmosphereBand ℝ).baseAltitude ≤ maxAltitude → StepsDown i) :
    densityOf maxAltitude h₂ ≤ densityOf maxAltitude h₁ ∧
    (∀ i : Nat, 0 < i → i < 28 → (bandAt i : AtmosphereBand ℝ).baseAltitude ≤ maxAltitude →
      (StepsDown i ↔ ∀ h, (bandAt (i - 1) : AtmosphereBand ℝ).baseAltitude ≤ h →
        h < (bandAt i : AtmosphereBand ℝ).baseAltitude →
        densityOf maxAltitude (bandAt i : AtmosphereBand ℝ).baseAltitude ≤
          densityOf maxAltitude h)) ∧
    (∀ (a : Atmosphere) (t : Float) (p : Vec3), a.field t p =
      if p.norm - a.bodyRadius < a.minAltitude then
        .error (a.belowRange (p.norm - a.bodyRadius) (some t) (some p.toList))
      else a.density (p.norm - a.bodyRadius)) ∧
    (∀ (a : Atmosphere) (h : Float), a.density h =
      if h < a.minAltitude then .error (a.belowRange h none none)
      else .ok (densityOf a.maxAltitude h)) :=
  ⟨densityOf_antitone hle hsteps, fun _ hi0 hi hmax => stepsDown_iff hi0 hi hmax, field_eq,
    density_eq⟩

/-- No band begins between 400 km and 440 km, so the density there falls. -/
theorem density_falls_above_four_hundred_km :
    densityOf (1000.0e3 : ℝ) 440000 ≤ densityOf 1000.0e3 400000 :=
  (density_falls_between_rising_bases _ (by norm_num) fun i _ hi h₁ h₂ _ => by
    have hnone : ∀ b ∈ (table : List (AtmosphereBand ℝ)),
        ¬ (400000 < b.baseAltitude ∧ b.baseAltitude ≤ 440000) := by
      simp only [table, List.forall_mem_cons, List.not_mem_nil, IsEmpty.forall_iff, implies_true,
        and_true]
      norm_num [baseAltitude]
    exact absurd ⟨h₁, h₂⟩ (hnone _ (bandAt_mem hi))).1

end Atmosphere

end Spacecraft
