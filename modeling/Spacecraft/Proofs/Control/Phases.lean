import Mathlib
import Spacecraft.Proofs.Control.Frame

/-!
# The phase machine of a torque law

A torque law's constructor accepts a table only if every row joins two existing phases and
moves to a later one (`make_eq_ok`). Everything else follows from that check and from the
order in which an advance reads the table.

`advance_eq_ok` says once what an accepted advance does: it reads the guidance reference, the
active policy and the new integral, moves the guidance and the sensor memory on, and then
the first row of the table, in table order, that leaves the active phase and whose condition
holds (`TorqueLaw.firing`) decides how the step ends (`TorqueLaw.Enters`): with no such row
the law stays where it is, with one its target phase starts at the time of the step, with a
zero integral and the sensor memory that phase starts with.

Over a whole run (`TorqueLaw.Trace`: the initial state, then advances that succeed or fail,
from any times, states and bodies) the active phase always exists, never moves back, never
leaves a terminal phase, and changes at most one time fewer than there are phases
(`phase_schedule`).
-/

namespace Spacecraft

open Tracked

namespace TorqueLaw

/-! ### Laws the constructor accepts -/

/-- A law its constructor accepts: at least one phase, and every row of the table joins two
existing phases and moves to a later one. -/
structure Valid (law : TorqueLaw) : Prop where
  phases_ne_nil : law.phases ≠ []
  forward : ∀ row ∈ law.transitions,
    0 ≤ row.source ∧ row.source < row.target ∧ row.target < law.phases.length

/-- The table check refuses exactly the rows that leave the phases or do not move forward. -/
theorem checkTable_eq_ok {n : Nat} {rows : List Transition} :
    checkTable n rows = .ok () ↔
      ∀ row ∈ rows, 0 ≤ row.source ∧ row.source < row.target ∧ row.target < n := by
  have refused : ∀ (e : Fault) (k : Unit → Outcome Unit), (throw e >>= k) ≠ .ok () :=
    fun _ _ h => by cases h
  induction rows with
  | nil => simp [checkTable]; rfl
  | cons row rows ih =>
    simp only [checkTable, List.forall_mem_cons, ← ih]
    split_ifs with h1 h2 h2 <;> simp only [Bool.and_eq_true, decide_eq_true_eq] at h1
    · simp only [h2, true_and, iff_and_self]
      omega
    all_goals
      refine iff_of_false (refused _ _) ?_
      rintro ⟨⟨h3, h4, h5⟩, -⟩
      omega

/-- The constructor builds the law from its parts exactly when the parts make a valid law. -/
theorem make_eq_ok {phases : List Phase} {transitions : List Transition}
    {guidance : Option Guidance} {name : String} {law : TorqueLaw} :
    make phases transitions guidance name = .ok law ↔
      law = { phases, transitions, guidance, name } ∧ law.Valid := by
  constructor
  · intro h
    simp only [make] at h
    split_ifs at h with hnil
    · cases h
    · obtain ⟨u, hc, h⟩ := Outcome.bind_eq_ok h
      cases h
      exact ⟨rfl, by simpa using hnil, checkTable_eq_ok.1 hc⟩
  · rintro ⟨rfl, hv⟩
    have hnil : phases.isEmpty = false := List.isEmpty_eq_false_iff.2 hv.phases_ne_nil
    simp only [make, hnil, Bool.false_eq_true, if_false]
    rw [checkTable_eq_ok.2 hv.forward]
    rfl

theorem length_phases_of_skeleton {law law' : TorqueLaw} (h : law'.skeleton = law.skeleton) :
    law'.phases.length = law.phases.length := by
  simpa [skeleton] using congrArg (fun l => l.phases.length) h

/-- A law that looks like a valid law once its sensors are restarted is valid: the check
reads only the phases and the ends of the rows. -/
theorem Valid.of_skeleton {law law' : TorqueLaw} (hv : law.Valid)
    (h : law'.skeleton = law.skeleton) : law'.Valid := by
  have hp := length_phases_of_skeleton h
  have ht : law'.transitions.map Transition.restart = law.transitions.map Transition.restart :=
    congrArg TorqueLaw.transitions h
  refine ⟨fun hnil => hv.phases_ne_nil ?_, fun row' hrow' => ?_⟩
  · simpa [hnil] using hp.symm
  · have hmem : row'.restart ∈ law.transitions.map Transition.restart :=
      ht ▸ List.mem_map_of_mem hrow'
    obtain ⟨row, hrow, hr⟩ := List.mem_map.1 hmem
    have hs : row.source = row'.source := (congrArg Transition.source hr :)
    have htg : row.target = row'.target := (congrArg Transition.target hr :)
    rw [hp, ← hs, ← htg]
    exact hv.forward row hrow

/-! ### What the steps of an advance touch -/

/-- What a step on the active phase `i` leaves alone: the table, and every other phase. -/
def apart (i : Nat) (law : TorqueLaw) : (Nat → Option Phase) × List Transition :=
  (fun k => if k = i then none else law.phases[k]?, law.transitions)

theorem keeps_apart_onPhase {α : Type} (i : Nat) (m : Tracked Policy α) :
    Keeps (apart i) (onPhase i m) := by
  intro law
  simp only [onPhase, runFrom_focus, apart, Prod.mk.injEq, and_true]
  funext k
  split_ifs with hk
  · rfl
  · simp [List.getElem?_mapIdx, hk]

theorem keeps_apart_guidanceStep (i : Nat) (law0 : TorqueLaw) (t : Float) (s : SatState)
    (ls : LawState) : Keeps (apart i) (guidanceStep law0 t s ls) := by
  unfold guidanceStep
  split
  · exact (keeps_lift _).bind fun ⟨_, _⟩ _ => rfl
  · exact keeps_pure _

theorem keeps_apart_estimateStep (policy : Policy) (t : Float) (s : SatState) (b : Body)
    (ls : LawState) : Keeps (apart ls.phaseIndex) (estimateStep policy t s b ls) :=
  keeps_estimateStep_of fun _ => keeps_apart_onPhase _ _

/-- Evaluating the condition of row `j` moves that condition's sensor and nothing else. -/
theorem runFrom_onTransition {α : Type} {j : Nat} {row : Transition} {law : TorqueLaw}
    (h : law.transitions[j]? = some row) (m : Tracked Condition α) :
    runFrom (onTransition j m) law =
      ((runFrom m row.condition).1, { law with
        transitions := law.transitions.set j { row with condition := (runFrom m row.condition).2 } }) := by
  simp only [onTransition, runFrom_focus, h, Option.map_some, Option.getD_some, Prod.mk.injEq,
    true_and]
  congr 1
  apply List.ext_getElem?
  intro k
  by_cases hk : k = j
  · subst hk
    obtain ⟨hk, hrow⟩ := List.getElem?_eq_some_iff.1 h
    simp [hk, hrow]
  · simp [List.getElem?_mapIdx, List.getElem?_set_ne (Ne.symm hk), hk]

/-- The sensor memory a phase starts with depends on that phase alone. -/
theorem fst_runFrom_estimateAt_congr {i : Nat} {s : SatState} {law law' : TorqueLaw}
    (h : law'.phases[i]? = law.phases[i]?) :
    (runFrom (estimateAt i s) law').1 = (runFrom (estimateAt i s) law).1 := by
  simp only [estimateAt, onPhase, runFrom_focus, h]

end TorqueLaw

/-! ### Which row fires -/

/-- Whether the condition of a row holds at `t` and `s`, for the law state `ls` the step
starts from and the guidance reference: a condition that cannot be judged does not hold. -/
def Transition.holds (row : Transition) (t : Float) (s : SatState) (ls : LawState)
    (ref : Option Command) : Bool :=
  ((runFrom (Condition.isMet t s ls ref) row.condition).1.toOption).getD false

namespace TorqueLaw

/-- The row that fires in a step from `ls`: the first row, in table order, that leaves the
active phase and whose condition holds. -/
def firing (law : TorqueLaw) (t : Float) (s : SatState) (ls : LawState) (ref : Option Command) :
    Option Transition :=
  law.transitions.find? fun row => row.source == (ls.phaseIndex : Int) && row.holds t s ls ref

/-- How a step ends, from the state `advanced` it reached before the table was read and the
row that fires: with no row the law stays in its phase; with a row, the row's target starts
at `t` with a zero integral and the sensor memory that phase starts with in `law`. -/
def Enters (law : TorqueLaw) (t : Float) (s : SatState) (advanced : LawState) :
    Option Transition → LawState → Prop
  | none, ls' => ls' = advanced
  | some row, ls' => ∃ e, (runFrom (estimateAt row.target.toNat s) law).1 = .ok e ∧
      ls' = { advanced with
        phaseIndex := row.target.toNat, phaseStart := t, integral := Vec3.zero, estimate := e }

/-- How a step ends reads the law only through the phases it may enter. -/
theorem Enters.of_phase {law law' : TorqueLaw} {t : Float} {s : SatState}
    {advanced ls' : LawState} {entered : Option Transition}
    (h : ∀ row ∈ entered, law'.phases[row.target.toNat]? = law.phases[row.target.toNat]?)
    (he : law'.Enters t s advanced entered ls') : law.Enters t s advanced entered ls' := by
  cases entered with
  | none => exact he
  | some row =>
    obtain ⟨e, hest, rfl⟩ := he
    exact ⟨e, by rw [← fst_runFrom_estimateAt_congr (h row rfl), hest], rfl⟩

/-- Firing rows that sit at their places in the table of `law`, each place once: the rows are
read in order, the first that leaves the active phase and whose condition holds is entered,
and no condition is read twice, so each is judged on the sensor it had when the step
began. -/
theorem fire_eq_ok {t : Float} {s : SatState} {ls advanced ls' : LawState}
    {ref : Option Command} {rows : List (Nat × Transition)} {law law' : TorqueLaw}
    (hrows : ∀ p ∈ rows, law.transitions[p.1]? = some p.2) (hnd : (rows.map Prod.fst).Nodup)
    (h : runFrom (fire t s ls ref advanced rows) law = (.ok ls', law')) :
    Enters law t s advanced ((rows.map Prod.snd).find? fun row =>
      row.source == (ls.phaseIndex : Int) && row.holds t s ls ref) ls' := by
  induction rows generalizing law with
  | nil =>
    simp only [fire, runFrom_pure, Prod.mk.injEq, Except.ok.injEq] at h
    exact h.1.symm
  | cons p rows ih =>
    obtain ⟨j, row⟩ := p
    have hj : law.transitions[j]? = some row := hrows _ List.mem_cons_self
    have hrest : ∀ p ∈ rows, law.transitions[p.1]? = some p.2 :=
      fun p hp => hrows p (List.mem_cons_of_mem _ hp)
    rw [List.map_cons, List.nodup_cons] at hnd
    simp only [fire] at h
    rw [List.map_cons, List.find?_cons]
    split_ifs at h with hsrc
    · -- a row that leaves another phase is passed over
      have hskip : (row.source == (ls.phaseIndex : Int) && row.holds t s ls ref) = false := by
        simp_all
      rw [hskip]
      exact ih hrest hnd.2 h
    · obtain ⟨met, law1, hmet, h⟩ := runFrom_bind_eq_ok h
      rw [runFrom_onTransition hj] at hmet
      simp only [Prod.mk.injEq] at hmet
      have hheld : row.holds t s ls ref = met := by
        simp [Transition.holds, hmet.1, Except.toOption]
      have hsrc' : (row.source == (ls.phaseIndex : Int)) = true := by simpa using hsrc
      rw [hsrc', hheld, Bool.true_and]
      cases met with
      | true =>
        rw [if_pos rfl] at h
        obtain ⟨e, law2, he, h⟩ := runFrom_bind_eq_ok h
        simp only [runFrom_pure, Prod.mk.injEq, Except.ok.injEq] at h
        have hsame : law1.phases[row.target.toNat]? = law.phases[row.target.toNat]? := by
          rw [← hmet.2]
        refine ⟨e, ?_, h.1.symm⟩
        rw [← fst_runFrom_estimateAt_congr hsame, he]
      | false =>
        rw [if_neg Bool.false_ne_true] at h
        -- the next rows sit at other places, which the reading left alone
        refine (ih (fun q hq => ?_) hnd.2 h).of_phase fun _ _ => by rw [← hmet.2]
        have hne : j ≠ q.1 := fun hjq => hnd.1 (List.mem_map.2 ⟨q, hq, hjq.symm⟩)
        rw [← hmet.2, List.getElem?_set_ne hne]
        exact hrest q hq

/-! ### One advance -/

theorem getElem?_of_mem_rows {law : TorqueLaw} {p : Nat × Transition} (hp : p ∈ law.rows) :
    law.transitions[p.1]? = some p.2 := by
  obtain ⟨k, hk, rfl⟩ := List.mem_iff_getElem.1 hp
  simp [rows]

theorem nodup_rows (law : TorqueLaw) : (law.rows.map Prod.fst).Nodup := by
  rw [rows, List.map_fst_zip (by simp)]
  exact List.nodup_range

theorem map_snd_rows (law : TorqueLaw) : law.rows.map Prod.snd = law.transitions := by
  rw [rows, List.map_snd_zip (by simp)]

/-- The guidance memory is present after an advance exactly when it was before. -/
theorem isSome_of_guidanceStep {law0 law : TorqueLaw} {t : Float} {s : SatState}
    {ls : LawState} {memory : Option GuidanceMemory}
    (h : (runFrom (guidanceStep law0 t s ls) law).1 = .ok memory) :
    memory.isSome = ls.guidance.isSome := by
  unfold guidanceStep at h
  split at h
  · rename_i g m _ hm
    rw [runFrom_lift_bind] at h
    rcases hadv : g.advance t s m with e | ⟨m', g'⟩ <;> rw [hadv] at h
    · cases h
    · cases h
      rw [hm]
      rfl
  · simp only [runFrom_pure, Except.ok.injEq] at h
    rw [h]

/-- The sensor memory is present after an advance exactly when it was before. -/
theorem isSome_of_estimateStep {law : TorqueLaw} {policy : Policy} {t : Float} {s : SatState}
    {b : Body} {ls : LawState} {estimate : Option FieldRateEstimate}
    (h : (runFrom (estimateStep policy t s b ls) law).1 = .ok estimate) :
    estimate.isSome = ls.estimate.isSome := by
  unfold estimateStep at h
  rcases he : ls.estimate with _ | e <;> rw [he] at h
  · simp only [runFrom_pure, Except.ok.injEq] at h
    rw [← h]
  · split_ifs at h
    · rw [fst_runFrom_map] at h
      obtain ⟨e', -, rfl⟩ := Outcome.map_eq_ok h
      rfl
    · simp only [runFrom_pure, Except.ok.injEq] at h
      rw [← h]

/-- An accepted advance in its parts. The guidance reference, the active policy and the new
integral are read first; the guidance memory and the sensor memory move on, each present
exactly when it was; then the row that fires, judged on the law as the step found it,
decides how the step ends. -/
theorem advance_eq_ok {t : Float} {s : SatState} {b : Body} {ls ls' : LawState}
    {law law' : TorqueLaw} (hv : law.Valid) (h : runFrom (advance t s b ls) law = (.ok ls', law')) :
    ∃ ref policy integral memory estimate,
      law.reference t s ls = .ok ref ∧ law.policyAt ls.phaseIndex = .ok policy ∧
      policy.updateIntegral (t - ls.time) s ref ls.integral = .ok integral ∧
      memory.isSome = ls.guidance.isSome ∧ estimate.isSome = ls.estimate.isSome ∧
      law.Enters t s { ls with time := t, integral, guidance := memory, estimate }
        (law.firing t s ls ref) ls' := by
  rw [advance_eq, runFrom_get_bind] at h
  obtain ⟨ref, href, h⟩ := runFrom_lift_bind_eq_ok h
  obtain ⟨policy, hpolicy, h⟩ := runFrom_lift_bind_eq_ok h
  obtain ⟨integral, hintegral, h⟩ := runFrom_lift_bind_eq_ok h
  obtain ⟨memory, law1, hmemory, h⟩ := runFrom_bind_eq_ok h
  obtain ⟨estimate, law2, hestimate, h⟩ := runFrom_bind_eq_ok h
  -- the guidance and the sensor memory leave the table, and every phase but the active one
  have hapart : apart ls.phaseIndex law2 = apart ls.phaseIndex law := by
    exact ((keeps_apart_estimateStep policy t s b ls).eq_of_runFrom hestimate).trans
      ((keeps_apart_guidanceStep ls.phaseIndex law t s ls).eq_of_runFrom hmemory)
  have htable : law2.transitions = law.transitions := congrArg Prod.snd hapart
  have hfire := fire_eq_ok (fun p hp => htable ▸ getElem?_of_mem_rows hp) (nodup_rows law) h
  rw [map_snd_rows] at hfire
  refine ⟨ref, policy, integral, memory, estimate, href, hpolicy, hintegral,
    isSome_of_guidanceStep (congrArg Prod.fst hmemory),
    isSome_of_estimateStep (congrArg Prod.fst hestimate), hfire.of_phase fun row hrow => ?_⟩
  -- the row entered leads to a later phase, which the steps before the table left alone
  have hmem : row ∈ law.transitions := List.mem_of_find?_eq_some hrow
  have hsrc : row.source = ls.phaseIndex ∧ row.holds t s ls ref := by
    simpa using List.find?_some hrow
  obtain ⟨h0, hlt, -⟩ := hv.forward row hmem
  have hne : row.target.toNat ≠ ls.phaseIndex := by omega
  simpa [apart, hne] using congrFun (congrArg Prod.fst hapart) row.target.toNat

/-- A row that fires leaves the active phase for a later phase of the law. -/
theorem lt_target_of_firing {law : TorqueLaw} {t : Float} {s : SatState} {ls : LawState}
    {ref : Option Command} {row : Transition} (hv : law.Valid)
    (hrow : law.firing t s ls ref = some row) :
    ls.phaseIndex < row.target.toNat ∧ row.target.toNat < law.phases.length := by
  have hsrc : row.source = ls.phaseIndex ∧ row.holds t s ls ref := by
    simpa using List.find?_some hrow
  obtain ⟨h0, hlt, hn⟩ := hv.forward row (List.mem_of_find?_eq_some hrow)
  omega

/-- Some row fires exactly when some row leaves the active phase and its condition holds. -/
theorem isSome_firing_iff {law : TorqueLaw} {t : Float} {s : SatState} {ls : LawState}
    {ref : Option Command} :
    (law.firing t s ls ref).isSome ↔
      ∃ row ∈ law.transitions, row.source = ls.phaseIndex ∧ row.holds t s ls ref := by
  simp [firing, List.find?_isSome]

/-- No row fires from a terminal phase. -/
theorem firing_eq_none_of_isTerminal {law : TorqueLaw} {t : Float} {s : SatState}
    {ls : LawState} {ref : Option Command} (h : law.isTerminal ls.phaseIndex) :
    law.firing t s ls ref = none := by
  rw [firing, List.find?_eq_none]
  intro row hrow
  have hne := List.all_eq_true.1 h row hrow
  simp_all

/-- The active phase after an accepted advance: the one it was when no row fires, and
otherwise the target of the row that fires, a later phase of the law, which starts at the
time of the step with a zero integral and its own first sensor memory. -/
theorem phaseIndex_advance {t : Float} {s : SatState} {b : Body} {ls ls' : LawState}
    {law law' : TorqueLaw} (hv : law.Valid) (h : runFrom (advance t s b ls) law = (.ok ls', law')) :
    ∃ ref, law.reference t s ls = .ok ref ∧
      match law.firing t s ls ref with
      | none => ls'.phaseIndex = ls.phaseIndex ∧ ls'.phaseStart = ls.phaseStart
      | some row => ls'.phaseIndex = row.target.toNat ∧ ls.phaseIndex < ls'.phaseIndex ∧
          ls'.phaseIndex < law.phases.length ∧ ls'.phaseStart = t ∧ ls'.integral = Vec3.zero ∧
          (runFrom (estimateAt ls'.phaseIndex s) law).1 = .ok ls'.estimate := by
  obtain ⟨ref, _, _, _, _, href, -, -, -, -, hend⟩ := advance_eq_ok hv h
  refine ⟨ref, href, ?_⟩
  split
  · rename_i hf
    rw [hf] at hend
    cases hend
    exact ⟨rfl, rfl⟩
  · rename_i row hf
    rw [hf] at hend
    obtain ⟨e, he, rfl⟩ := hend
    exact ⟨rfl, (lt_target_of_firing hv hf).1, (lt_target_of_firing hv hf).2, rfl, rfl, he⟩

/-! ### Runs -/

/-- The law state a run starts from: the first phase, begun at the start time, no integral,
guidance memory exactly when the law has guidance, and the sensor memory the first phase
starts with. -/
theorem initialState_eq_ok {s : SatState} {law law' : TorqueLaw} {ls : LawState}
    (h : runFrom (initialState s) law = (.ok ls, law')) :
    ∃ memory estimate, runFrom (estimateAt 0 s) law = (.ok estimate, law') ∧
      memory.isSome = law.guidance.isSome ∧
      ls = { phaseIndex := 0, phaseStart := s.time, time := s.time, guidance := memory, estimate } := by
  have tail : ∀ memory : Option GuidanceMemory, memory.isSome = law.guidance.isSome →
      runFrom (estimateAt 0 s >>= fun estimate => pure ({
          phaseIndex := 0, phaseStart := s.time, time := s.time, guidance := memory, estimate } :
          LawState)) law = (.ok ls, law') →
      ∃ memory estimate, runFrom (estimateAt 0 s) law = (.ok estimate, law') ∧
        memory.isSome = law.guidance.isSome ∧
        ls = {
          phaseIndex := 0, phaseStart := s.time, time := s.time, guidance := memory, estimate } := by
    intro memory hsome h
    obtain ⟨estimate, law2, hestimate, h⟩ := runFrom_bind_eq_ok h
    simp only [runFrom_pure, Prod.mk.injEq, Except.ok.injEq] at h
    obtain ⟨rfl, rfl⟩ := h
    exact ⟨memory, estimate, hestimate, hsome, rfl⟩
  unfold initialState at h
  rw [runFrom_get_bind] at h
  dsimp only at h
  -- the guidance memory is made from the guidance alone, and touches no state
  split at h
  · rename_i hg
    rw [pure_bind] at h
    exact tail none (by rw [hg]; rfl) h
  · rename_i g hg
    rw [runFrom_bind, runFrom_map, runFrom_lift] at h
    rcases hm : g.initialMemory (some s) with e | m <;> rw [hm] at h
    · cases h
    · exact tail (some m) (by rw [hg]; rfl) h

/-- An accepted advance never moves the active phase back, nor out of the law. -/
theorem phaseIndex_le_advance {t : Float} {s : SatState} {b : Body} {ls ls' : LawState}
    {law law' : TorqueLaw} (hv : law.Valid) (hi : ls.phaseIndex < law.phases.length)
    (h : runFrom (advance t s b ls) law = (.ok ls', law')) :
    ls.phaseIndex ≤ ls'.phaseIndex ∧ ls'.phaseIndex < law.phases.length := by
  obtain ⟨ref, -, hstep⟩ := phaseIndex_advance hv h
  split at hstep
  · omega
  · omega

/-- The laws and the law states a run reaches from the start at `s0` with the law `law0`,
the newest state first: the initial state, then advances from any times, states and bodies.
An advance that fails leaves the law state as it was, but keeps what its sensors drew. -/
inductive Trace (law0 : TorqueLaw) (s0 : SatState) : TorqueLaw → List LawState → Prop
  | start {ls : LawState} {law : TorqueLaw} :
      runFrom (initialState s0) law0 = (.ok ls, law) → Trace law0 s0 law [ls]
  | advanced {law law' : TorqueLaw} {ls ls' : LawState} {rest : List LawState} {t : Float}
      {s : SatState} {b : Body} : Trace law0 s0 law (ls :: rest) →
      runFrom (advance t s b ls) law = (.ok ls', law') → Trace law0 s0 law' (ls' :: ls :: rest)
  | failed {law law' : TorqueLaw} {ls : LawState} {rest : List LawState} {t : Float}
      {s : SatState} {b : Body} {e : Fault} : Trace law0 s0 law (ls :: rest) →
      runFrom (advance t s b ls) law = (.error e, law') → Trace law0 s0 law' (ls :: rest)

/-- The number of times the active phase changes along a list of law states. -/
def phaseChanges : List LawState → Nat
  | l :: l' :: rest => (if l.phaseIndex = l'.phaseIndex then 0 else 1) + phaseChanges (l' :: rest)
  | _ => 0

namespace Trace

variable {law0 : TorqueLaw} {s0 : SatState}

/-- A run changes its law only in what `skeleton` forgets. -/
theorem skeleton_eq {law : TorqueLaw} {states : List LawState}
    (h : Trace law0 s0 law states) : law.skeleton = law0.skeleton := by
  induction h with
  | start h => exact (keeps_initialState s0).eq_of_runFrom h
  | advanced _ h ih => exact ((keeps_advance _ _ _ _).eq_of_runFrom h).trans ih
  | failed _ h ih => exact ((keeps_advance _ _ _ _).eq_of_runFrom h).trans ih

theorem valid {law : TorqueLaw} {states : List LawState} (hv : law0.Valid)
    (h : Trace law0 s0 law states) : law.Valid :=
  hv.of_skeleton h.skeleton_eq

/-- Every law state of a run has its active phase in the law. -/
theorem phaseIndex_lt {law : TorqueLaw} {states : List LawState} (hv : law0.Valid)
    (h : Trace law0 s0 law states) : ∀ l ∈ states, l.phaseIndex < law0.phases.length := by
  induction h with
  | start h =>
    obtain ⟨_, _, -, -, rfl⟩ := initialState_eq_ok h
    simpa [List.length_pos_iff] using hv.phases_ne_nil
  | @advanced law _ ls ls' _ _ _ _ hrun h ih =>
    have hlen := length_phases_of_skeleton hrun.skeleton_eq
    have hi := ih ls List.mem_cons_self
    have hnext := (phaseIndex_le_advance (hrun.valid hv) (hlen ▸ hi) h).2
    intro l hl
    rcases List.mem_cons.1 hl with rfl | hl
    · omega
    · exact ih l hl
  | failed _ _ ih => exact ih

/-- Along a run the active phase has changed at most as often as its index says. -/
theorem phaseChanges_le {law : TorqueLaw} {states : List LawState} (hv : law0.Valid)
    (h : Trace law0 s0 law states) : ∀ ls ∈ states.head?, phaseChanges states ≤ ls.phaseIndex := by
  induction h with
  | start => simp [phaseChanges]
  | @advanced law _ ls ls' _ _ _ _ hrun h ih =>
    have hlen := length_phases_of_skeleton hrun.skeleton_eq
    have hi := hrun.phaseIndex_lt hv ls List.mem_cons_self
    have hle := (phaseIndex_le_advance (hrun.valid hv) (hlen ▸ hi) h).1
    have hprev := ih ls rfl
    simp only [List.head?_cons, Option.mem_def, Option.some.injEq, forall_eq', phaseChanges]
    split_ifs with heq <;> omega
  | failed _ _ ih => exact ih

end Trace

/-! ### The phase machine -/

/-- The phase machine of a law its constructor accepts. Along every run the active phase is a
phase of the law, and it has changed at most one time fewer than there are phases. Every
accepted advance from where a run stands changes the active phase exactly when a row that
leaves it has its condition hold, and then into the target of the first such row in table
order, which starts at the time of the step with a zero integral and its own first sensor
memory; the active phase never moves back, and never leaves a terminal phase. -/
theorem phase_schedule {phases : List Phase} {transitions : List Transition}
    {guidance : Option Guidance} {name : String} {law0 : TorqueLaw}
    (hmake : make phases transitions guidance name = .ok law0) (s0 : SatState) :
    ∀ law ls rest, Trace law0 s0 law (ls :: rest) →
      (∀ l ∈ ls :: rest, l.phaseIndex < phases.length) ∧
      phaseChanges (ls :: rest) ≤ phases.length - 1 ∧
      ∀ t s b ls' law', runFrom (advance t s b ls) law = (.ok ls', law') →
        ∃ ref, law.reference t s ls = .ok ref ∧
          (ls'.phaseIndex ≠ ls.phaseIndex ↔
            ∃ row ∈ law.transitions, row.source = ls.phaseIndex ∧ row.holds t s ls ref) ∧
          (∀ row, law.firing t s ls ref = some row →
            ls'.phaseIndex = row.target.toNat ∧ ls'.phaseStart = t ∧ ls'.integral = Vec3.zero ∧
            (runFrom (estimateAt ls'.phaseIndex s) law).1 = .ok ls'.estimate) ∧
          ls.phaseIndex ≤ ls'.phaseIndex ∧
          (law.isTerminal ls.phaseIndex → ls'.phaseIndex = ls.phaseIndex) := by
  obtain ⟨rfl, hv⟩ := make_eq_ok.1 hmake
  intro law ls rest hrun
  have hbound : ∀ l ∈ ls :: rest, l.phaseIndex < phases.length := hrun.phaseIndex_lt hv
  refine ⟨hbound, ?_, fun t s b ls' law' h => ?_⟩
  · have hchanges := hrun.phaseChanges_le hv ls rfl
    have hls := hbound ls List.mem_cons_self
    omega
  obtain ⟨ref, href, hstep⟩ := phaseIndex_advance (hrun.valid hv) h
  refine ⟨ref, href, ?_⟩
  have hfires : (law.firing t s ls ref).isSome ↔ _ := isSome_firing_iff
  cases hf : law.firing t s ls ref with
  | none =>
    -- no row fires: the law stays in its phase
    rw [hf] at hstep hfires
    refine ⟨iff_of_false (· hstep.1) fun hrow => ?_, ?_, hstep.1.ge, fun _ => hstep.1⟩
    · simpa using hfires.2 hrow
    · intro row h
      cases h
  | some row =>
    -- the first row that holds is entered
    rw [hf] at hstep hfires
    obtain ⟨htarget, hlater, -, hstart, hzero, hest⟩ := hstep
    refine ⟨iff_of_true hlater.ne' (hfires.1 rfl), fun row' h => ?_, hlater.le, fun hterm => ?_⟩
    · cases h
      exact ⟨htarget, hstart, hzero, hest⟩
    · rw [firing_eq_none_of_isTerminal hterm] at hf
      cases hf

/-- A law of two phases whose table the constructor accepts, run from rest. -/
theorem detumble_then_point_schedule :
    make (detumbleThenPoint .zero).phases (detumbleThenPoint .zero).transitions none
        "detumble_then_point" = .ok (detumbleThenPoint .zero) ∧
    ∀ law ls rest, Trace (detumbleThenPoint .zero) default law (ls :: rest) →
      (∀ l ∈ ls :: rest, l.phaseIndex < 2) ∧ phaseChanges (ls :: rest) ≤ 2 - 1 ∧
      ∀ t s b ls' law', runFrom (advance t s b ls) law = (.ok ls', law') →
        ∃ ref, law.reference t s ls = .ok ref ∧
          (ls'.phaseIndex ≠ ls.phaseIndex ↔
            ∃ row ∈ law.transitions, row.source = ls.phaseIndex ∧ row.holds t s ls ref) ∧
          (∀ row, law.firing t s ls ref = some row →
            ls'.phaseIndex = row.target.toNat ∧ ls'.phaseStart = t ∧ ls'.integral = Vec3.zero ∧
            (runFrom (estimateAt ls'.phaseIndex s) law).1 = .ok ls'.estimate) ∧
          ls.phaseIndex ≤ ls'.phaseIndex ∧
          (law.isTerminal ls.phaseIndex → ls'.phaseIndex = ls.phaseIndex) := by
  have hmake : make (detumbleThenPoint .zero).phases (detumbleThenPoint .zero).transitions none
      "detumble_then_point" = .ok (detumbleThenPoint .zero) := rfl
  exact ⟨hmake, phase_schedule hmake default⟩

end TorqueLaw

end Spacecraft
