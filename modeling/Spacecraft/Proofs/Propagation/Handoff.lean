import Mathlib
import Spacecraft.Proofs.Propagation.Recorder

/-!
# Handing observer calls to a worker

A deferred observer passes the calls it receives on to another observer, through a pool with
one worker thread: every call is submitted with a snapshot of its state, the worker runs the
calls one at a time in the order they were submitted, and a future records how each ended.
After an accepted step is submitted the observer forgets the futures that ended well and keeps
those that failed or are still running. Closing waits until the worker has run every call,
closes the other observer and reports the failure of the earliest call that failed, or else
what closing the other observer reported; without a pool (nothing was submitted) it does
nothing.

`Handoff` is that machine with the worker's progress left open (`Serve`). When the futures are
pruned the worker may have run any number of the waiting calls, and as the futures are read
one after another while it goes on, pruning may keep a future that ended well, but it never
drops one that failed or had not ended. The calls the worker runs between two requests show
only at the next pruning or at closing, so they are counted there.

Whatever the worker does, the machine answers as the deferred observer of the runs
(`Observer.deferred`), which runs every call at once (`serves_as_deferred`): a request is
refused only when the snapshot of its state cannot be taken, the other observer receives the
snapshots in submission order, and closing reports the earliest failure. The proof rests on
one invariant (`Inv`): the worker ran a prefix of the submitted calls, the other observer and
the outcomes are the sequential run of that prefix (`trace`), and the futures kept are
submission numbers in increasing order that include every call that failed or has not run.
-/

namespace Spacecraft

/-- The fault of a computation that failed. -/
def faultOf {α : Type} : Outcome α → Option Fault
  | .ok _ => none
  | .error f => some f

/-- A call handed to the worker: the start of a run or an accepted step, with the snapshot of
the state it was made with. -/
inductive Handoff.Call where
  | start (s : SatState)
  | notice (s : SatState) (isLast : Bool)

/-- What a run asks of an observer. -/
inductive Handoff.Request where
  | start (s : SatState)
  | notice (s : SatState) (isLast : Bool)
  | close

/-- The deferred observer at the level of its worker: the other observer as the worker left
it, the calls submitted since the pool was made, how each call the worker ran ended (the fault
of one that failed), and the futures kept, by submission number. -/
structure Handoff where
  inner : Observer
  submitted : List Handoff.Call
  results : List (Option Fault)
  futures : List Nat

namespace Handoff

/-! ## Calls run one after another -/

/-- The other observer after a call, or the fault the call raised. -/
def Call.run : Call → Observer → Outcome Observer
  | .start s, o => o.start s
  | .notice s isLast, o => Notice.observer <$> o.notice s isLast

/-- One more call run: a call that fails leaves the observer as it was, and the outcome
recorded is its fault. -/
def runCall (acc : Observer × List (Option Fault)) (c : Call) : Observer × List (Option Fault) :=
  ((c.run acc.1).toOption.getD acc.1, acc.2 ++ [faultOf (c.run acc.1)])

/-- Calls run one after another from an observer: the observer afterwards and the outcome of
each call. -/
def trace (o : Observer) (cs : List Call) : Observer × List (Option Fault) :=
  cs.foldl runCall (o, [])

@[simp] theorem trace_nil (o : Observer) : trace o [] = (o, []) := rfl

theorem trace_append (o : Observer) (cs : List Call) (c : Call) :
    trace o (cs ++ [c]) = runCall (trace o cs) c := by
  simp [trace, List.foldl_append]

@[simp] theorem length_runCall (acc : Observer × List (Option Fault)) (c : Call) :
    (runCall acc c).2.length = acc.2.length + 1 := by
  simp [runCall]

/-! ## Requests -/

/-- The call a request hands over, when the snapshot of its state can be taken. -/
def Request.call? : Request → Option Call
  | .start s => s.copy.toOption.map .start
  | .notice s isLast => s.copy.toOption.map (Call.notice · isLast)
  | .close => none

/-- The fault of a snapshot that cannot be taken. -/
def Request.refusal : Request → Option Fault
  | .start s => faultOf s.copy
  | .notice s _ => faultOf s.copy
  | .close => none

theorem Request.call?_of_refusal {r : Request} {f : Fault} (hr : r.refusal = some f) :
    r.call? = none := by
  cases r with
  | start s => cases hs : s.copy <;> simp_all [refusal, call?, faultOf, Except.toOption]
  | notice s _ => cases hs : s.copy <;> simp_all [refusal, call?, faultOf, Except.toOption]
  | close => simp [refusal] at hr

/-! ## The machine -/

/-- The machine of an observer before any call. -/
def fresh (o : Observer) : Handoff := ⟨o, [], [], []⟩

/-- The worker runs the oldest call that has not run, if there is one. -/
def work (h : Handoff) : Handoff :=
  match h.submitted[h.results.length]? with
  | some c =>
    let acc := runCall (h.inner, h.results) c
    { h with inner := acc.1, results := acc.2 }
  | none => h

/-- The worker runs every call that is waiting. -/
def drain (h : Handoff) : Handoff := work^[h.submitted.length - h.results.length] h

/-- A call submitted: it takes the next submission number, and its future is kept. -/
def submit (h : Handoff) (c : Call) : Handoff :=
  { h with submitted := h.submitted ++ [c], futures := h.futures ++ [h.submitted.length] }

/-- The fault the future of a call holds: that of the call, once it ran and failed. -/
def failure (h : Handoff) (i : Nat) : Option Fault := h.results[i]?.join

/-- The futures pruning may keep: a sublist of the futures, with every one whose call failed
or has not run. -/
def Pruned (h : Handoff) (kept : List Nat) : Prop :=
  kept.Sublist h.futures ∧
    ∀ i ∈ h.futures, (h.results.length ≤ i ∨ (h.failure i).isSome) → i ∈ kept

/-- What closing reports once the worker ran every call: nothing without a pool, else the
fault of the earliest kept future that failed, or else what closing the other observer
reports. -/
def closeFault (h : Handoff) : Option Fault :=
  if h.submitted.isEmpty then none else (h.futures.filterMap h.failure).head?.or h.inner.close

/-- After closing: no pool, no calls and no futures. -/
def closed (h : Handoff) : Handoff := { h with submitted := [], results := [], futures := [] }

/-- One request served while the worker runs, with the fault it raises. A request whose
snapshot cannot be taken is refused and submits nothing. An accepted step is submitted, the
worker runs `n` more calls while the futures are read, and pruning keeps `kept`. Closing waits
for the worker. -/
inductive Serve : Handoff → Request → Option Fault → Handoff → Prop
  | start {h : Handoff} {s s' : SatState} (hs : s.copy = .ok s') :
      Serve h (.start s) none (h.submit (.start s'))
  | notice {h : Handoff} {s s' : SatState} {isLast : Bool} {kept : List Nat} (n : Nat)
      (hs : s.copy = .ok s') (hk : Pruned (work^[n] (h.submit (.notice s' isLast))) kept) :
      Serve h (.notice s isLast) none
        { work^[n] (h.submit (.notice s' isLast)) with futures := kept }
  | refused {h : Handoff} {r : Request} {f : Fault} (hr : r.refusal = some f) :
      Serve h r (some f) h
  | close {h : Handoff} : Serve h .close h.drain.closeFault h.drain.closed

/-- Requests served one after another, with their answers. -/
inductive Serves : Handoff → List Request → List (Option Fault) → Handoff → Prop
  | nil (h : Handoff) : Serves h [] [] h
  | cons {h h' h'' : Handoff} {r : Request} {a : Option Fault} {rs : List Request}
      {as : List (Option Fault)} (hr : Serve h r a h') (hrs : Serves h' rs as h'') :
      Serves h (r :: rs) (a :: as) h''

theorem Serves.append {h h'' : Handoff} {rs rs' : List Request} {as : List (Option Fault)}
    (hs : Serves h (rs ++ rs') as h'') :
    ∃ as₁ as₂ h', as = as₁ ++ as₂ ∧ Serves h rs as₁ h' ∧ Serves h' rs' as₂ h'' := by
  induction rs generalizing h as with
  | nil => exact ⟨[], as, h, rfl, .nil h, hs⟩
  | cons r rs ih =>
    cases hs with
    | cons hr hrs =>
      obtain ⟨as₁, as₂, h', rfl, h₁, h₂⟩ := ih hrs
      exact ⟨_ :: as₁, as₂, h', rfl, .cons hr h₁, h₂⟩

@[simp] theorem submitted_work (h : Handoff) : h.work.submitted = h.submitted := by
  unfold work
  split <;> rfl

@[simp] theorem submitted_iterate (h : Handoff) (n : Nat) :
    (work^[n] h).submitted = h.submitted := by
  induction n with
  | zero => rfl
  | succ n ih => rw [Function.iterate_succ_apply', submitted_work, ih]

/-! ## The invariant -/

/-- What holds between the requests before closing, for the observer `o` the machine started
with. -/
structure Inv (o : Observer) (h : Handoff) : Prop where
  ran_le : h.results.length ≤ h.submitted.length
  trace_eq : trace o (h.submitted.take h.results.length) = (h.inner, h.results)
  futures_sublist : h.futures.Sublist (List.range h.submitted.length)
  keeps : ∀ i < h.submitted.length, (h.results.length ≤ i ∨ (h.failure i).isSome) →
    i ∈ h.futures

variable {o : Observer} {h : Handoff}

theorem inv_fresh (o : Observer) : Inv o (fresh o) :=
  ⟨le_rfl, rfl, List.nil_sublist _, fun _ hi => absurd hi (Nat.not_lt_zero _)⟩

theorem Inv.submit (hi : Inv o h) (c : Call) : Inv o (h.submit c) where
  ran_le := by
    simp only [Handoff.submit, List.length_append, List.length_singleton]
    have := hi.ran_le
    omega
  trace_eq := by simpa [Handoff.submit, List.take_append_of_le_length hi.ran_le] using hi.trace_eq
  futures_sublist := by
    simp only [Handoff.submit, List.length_append, List.length_singleton, List.range_succ]
    exact hi.futures_sublist.append (List.Sublist.refl _)
  keeps i hlt hc := by
    simp only [Handoff.submit, List.length_append, List.length_singleton] at hlt
    simp only [Handoff.submit, List.mem_append, List.mem_singleton]
    rcases Nat.lt_succ_iff_lt_or_eq.1 hlt with hlt | rfl
    · exact .inl (hi.keeps i hlt hc)
    · exact .inr rfl

/-- The worker's step keeps the invariant: the call it runs is the next of the prefix, and a
future it ends was kept, since it had not run. -/
theorem Inv.work (hi : Inv o h) : Inv o h.work := by
  unfold Handoff.work
  split
  · next c hc =>
    have hlt : h.results.length < h.submitted.length := (List.getElem?_eq_some_iff.1 hc).1
    refine ⟨?_, ?_, hi.futures_sublist, fun i hi' hcond => hi.keeps i hi' ?_⟩
    · simp only [length_runCall]
      omega
    · simp only [length_runCall, List.take_add_one, hc, Option.toList_some, trace_append,
        hi.trace_eq]
    · -- a call that had not run before this step satisfies the condition already
      by_cases hle : h.results.length ≤ i
      · exact .inl hle
      · refine .inr ?_
        simp only [length_runCall, Nat.not_le] at hle hcond
        rcases hcond with hcond | hcond
        · omega
        · simpa [failure, runCall, List.getElem?_append_left hle] using hcond
  · exact hi

theorem Inv.iterate (hi : Inv o h) (n : Nat) : Inv o (Handoff.work^[n] h) := by
  induction n with
  | zero => exact hi
  | succ n ih =>
    rw [Function.iterate_succ_apply']
    exact ih.work

theorem Inv.prune (hi : Inv o h) {kept : List Nat} (hk : Pruned h kept) :
    Inv o { h with futures := kept } where
  ran_le := hi.ran_le
  trace_eq := hi.trace_eq
  futures_sublist := hk.1.trans hi.futures_sublist
  keeps i hlt hc := hk.2 i (hi.keeps i hlt hc) hc

/-! ## Closing -/

theorem length_work (hlt : h.results.length < h.submitted.length) :
    h.work.results.length = h.results.length + 1 := by
  unfold Handoff.work
  rw [List.getElem?_eq_getElem hlt]
  exact length_runCall _ _

theorem length_iterate {n : Nat}
    (hn : n ≤ h.submitted.length - h.results.length) :
    (Handoff.work^[n] h).results.length = h.results.length + n := by
  induction n with
  | zero => rfl
  | succ n ih =>
    rw [Function.iterate_succ_apply', length_work (by
      rw [ih (by omega), submitted_iterate]; omega), ih (by omega)]
    rfl

/-- Draining runs every submitted call. -/
theorem Inv.drain_ran (hi : Inv o h) : h.drain.results.length = h.drain.submitted.length := by
  have := hi.ran_le
  rw [drain, length_iterate le_rfl, submitted_iterate]
  omega

/-- Filtering a sublist that keeps every element the filter takes gives what filtering the
whole list gives. -/
theorem filterMap_sublist {α β : Type} {g : α → Option β} {l₁ l₂ : List α}
    (hs : l₁.Sublist l₂) (hn : l₂.Nodup) (hk : ∀ x ∈ l₂, (g x).isSome → x ∈ l₁) :
    l₁.filterMap g = l₂.filterMap g := by
  induction hs with
  | slnil => rfl
  | cons a hs ih =>
    -- the skipped element is not taken: it would have to be kept, and it occurs only once
    have ha : g a = none := by
      cases hga : g a with
      | none => rfl
      | some b =>
        exact absurd (hs.subset (hk a List.mem_cons_self (by simp [hga])))
          (List.nodup_cons.1 hn).1
    rw [List.filterMap_cons_none ha]
    exact ih (List.nodup_cons.1 hn).2 fun x hx hg => hk x (List.mem_cons_of_mem a hx) hg
  | cons_cons a hs ih =>
    have htail := ih (List.nodup_cons.1 hn).2 fun x hx hg => by
      rcases List.mem_cons.1 (hk x (List.mem_cons_of_mem a hx) hg) with rfl | hx'
      · exact absurd hx (List.nodup_cons.1 hn).1
      · exact hx'
    rw [List.filterMap_cons, List.filterMap_cons, htail]

theorem filterMap_range_join {β : Type} (l : List (Option β)) :
    (List.range l.length).filterMap (fun i => l[i]?.join) = l.filterMap id := by
  induction l using List.reverseRecOn with
  | nil => rfl
  | append_singleton l x ih =>
    rw [List.length_append, List.length_singleton, List.range_succ, List.filterMap_append,
      List.filterMap_append, ← ih]
    congr 1
    · refine List.filterMap_congr fun i hi => ?_
      rw [List.getElem?_append_left (List.mem_range.1 hi)]
    · cases x <;> simp

/-- Once every call ran, closing reports the earliest failure of the run of all the submitted
calls, or else what closing the other observer reports. -/
theorem Inv.closeFault_eq (hi : Inv o h) (hd : h.results.length = h.submitted.length) :
    h.closeFault = if h.submitted.isEmpty then none
      else (((trace o h.submitted).2.filterMap id).head?).or (trace o h.submitted).1.close := by
  have ht := hi.trace_eq
  rw [hd, List.take_length] at ht
  -- every failed call is kept, so the kept futures give the failures in submission order
  have hf : h.futures.filterMap h.failure = h.results.filterMap id := by
    rw [filterMap_sublist hi.futures_sublist List.nodup_range fun i hi' hg =>
      hi.keeps i (List.mem_range.1 hi') (.inr hg), ← hd]
    exact filterMap_range_join h.results
  rw [closeFault, hf, ht]

/-! ## Requests before closing -/

/-- Starts and accepted steps served from a machine that keeps the invariant: the invariant
still holds, the calls submitted are the snapshots of the requests, and only a snapshot that
cannot be taken refuses a request. -/
theorem Serves.requests {h h' : Handoff} {reqs : List Request} {answers : List (Option Fault)}
    (hs : Serves h reqs answers h') (hi : Inv o h) (hreqs : ∀ r ∈ reqs, r ≠ .close) :
    Inv o h' ∧ h'.submitted = h.submitted ++ reqs.filterMap Request.call? ∧
      answers = reqs.map Request.refusal := by
  induction hs with
  | nil => exact ⟨hi, by simp, rfl⟩
  | cons hr _ ih =>
    have htail := fun r hr => hreqs r (List.mem_cons_of_mem _ hr)
    cases hr with
    | start hcopy =>
      obtain ⟨hi', hsub, hans⟩ := ih (hi.submit _) htail
      refine ⟨hi', ?_, ?_⟩
      · simp [hsub, submit, Request.call?, hcopy, Except.toOption]
      · simp [hans, Request.refusal, hcopy, faultOf]
    | notice n hcopy hk =>
      obtain ⟨hi', hsub, hans⟩ := ih (((hi.submit _).iterate n).prune hk) htail
      refine ⟨hi', ?_, ?_⟩
      · simp [hsub, submit, Request.call?, hcopy, Except.toOption]
      · simp [hans, Request.refusal, hcopy, faultOf]
    | refused hf =>
      obtain ⟨hi', hsub, hans⟩ := ih hi htail
      exact ⟨hi', by simp [hsub, Request.call?_of_refusal hf], by simp [hans, hf]⟩
    | close => exact absurd rfl (hreqs _ List.mem_cons_self)

/-! ## The deferred observer of the runs -/

/-- How a run treats one observer: the fault a request raises and the observer afterwards. A
start or a step that fails leaves the observer as it was (as `startEach` and `noticeEach` do),
and closing reports and changes nothing (as `closeAll` does). -/
def respond (o : Observer) : Request → Option Fault × Observer
  | .start s => (faultOf (o.start s), (o.start s).toOption.getD o)
  | .notice s isLast =>
    (faultOf (Notice.observer <$> o.notice s isLast),
      (Notice.observer <$> o.notice s isLast).toOption.getD o)
  | .close => (o.close, o)

/-- Requests answered one after another. -/
def respondAll (o : Observer) : List Request → List (Option Fault) × Observer
  | [] => ([], o)
  | r :: rs => ((respond o r).1 :: (respondAll (respond o r).2 rs).1,
      (respondAll (respond o r).2 rs).2)

theorem respondAll_append (o : Observer) (rs rs' : List Request) :
    respondAll o (rs ++ rs') =
      ((respondAll o rs).1 ++ (respondAll (respondAll o rs).2 rs').1,
        (respondAll (respondAll o rs).2 rs').2) := by
  induction rs generalizing o with
  | nil => rfl
  | cons r rs ih => simp [respondAll, ih]

/-- The deferred observer once the calls `cs` were handed to it: the other observer run
through them, started when any was, and the faults they raised in order. -/
def deferredOf (o : Observer) (cs : List Call) : Observer :=
  .deferred (trace o cs).1 (!cs.isEmpty) ((trace o cs).2.filterMap id)

theorem defer_eq (o : Observer) : Observer.defer o = deferredOf o [] := rfl

/-- The deferred observer answers a start or a step as the snapshot of its state allows, and
hands the snapshot on. -/
theorem respond_deferredOf (o : Observer) (cs : List Call) {r : Request} (hr : r ≠ .close) :
    respond (deferredOf o cs) r = (r.refusal, deferredOf o (cs ++ r.call?.toList)) := by
  cases r with
  | start s =>
    cases hs : s.copy with
    | error f =>
      have hst : (deferredOf o cs).start s = .error f := by
        simp only [deferredOf, Observer.start, hs]
        rfl
      simp [respond, hst, faultOf, Request.refusal, Request.call?, hs, Except.toOption]
    | ok s' =>
      have hst : (deferredOf o cs).start s = .ok (deferredOf o (cs ++ [.start s'])) := by
        simp only [deferredOf, Observer.start, hs, Outcome.ok_bind, trace_append, runCall,
          Call.run]
        have hne : (cs ++ [Call.start s']).isEmpty = false := by cases cs <;> rfl
        cases (trace o cs).1.start s' <;> simp [Except.toOption, faultOf, hne] <;> rfl
      simp [respond, hst, faultOf, Request.refusal, Request.call?, hs, Except.toOption]
  | notice s isLast =>
    cases hs : s.copy with
    | error f =>
      have hst : Notice.observer <$> (deferredOf o cs).notice s isLast = .error f := by
        simp only [deferredOf, Observer.notice, hs]
        rfl
      simp [respond, hst, faultOf, Request.refusal, Request.call?, hs, Except.toOption]
    | ok s' =>
      have hst : Notice.observer <$> (deferredOf o cs).notice s isLast =
          .ok (deferredOf o (cs ++ [.notice s' isLast])) := by
        simp only [deferredOf, Observer.notice, hs, Outcome.ok_bind, trace_append, runCall,
          Call.run]
        have hne : (cs ++ [Call.notice s' isLast]).isEmpty = false := by cases cs <;> rfl
        cases (trace o cs).1.notice s' isLast <;> simp [Except.toOption, faultOf, hne] <;> rfl
      simp [respond, hst, faultOf, Request.refusal, Request.call?, hs, Except.toOption]
  | close => exact absurd rfl hr

theorem respondAll_deferredOf (o : Observer) (cs : List Call) {reqs : List Request}
    (hreqs : ∀ r ∈ reqs, r ≠ .close) :
    respondAll (deferredOf o cs) reqs =
      (reqs.map Request.refusal, deferredOf o (cs ++ reqs.filterMap Request.call?)) := by
  induction reqs generalizing cs with
  | nil => simp [respondAll]
  | cons r rs ih =>
    rw [respondAll, respond_deferredOf o cs (hreqs r List.mem_cons_self),
      ih _ fun r' hr' => hreqs r' (List.mem_cons_of_mem r hr')]
    cases hc : r.call? <;> simp [hc]

theorem close_deferredOf (o : Observer) (cs : List Call) :
    (deferredOf o cs).close = if cs.isEmpty then none
      else (((trace o cs).2.filterMap id).head?).or (trace o cs).1.close := by
  simp only [deferredOf, Observer.close, Bool.not_not]
  cases cs.isEmpty <;> cases (trace o cs).2.filterMap id <;> rfl

/-! ## The protocol -/

/-- The hand-off serves as the deferred observer of the runs, whatever the worker does. For
any starts and accepted steps and then closing: a request is refused only when the snapshot of
its state cannot be taken, never because the other observer failed; closing returns once the
worker has run every submitted call, in submission order, so that the other observer has
received every snapshot in that order; and closing reports the fault of the earliest call that
failed, or else what closing the other observer reports (nothing if no call was submitted).
These are the answers of `Observer.defer`. -/
theorem serves_as_deferred {o : Observer} {reqs : List Request}
    (hreqs : ∀ r ∈ reqs, r ≠ .close) {answers : List (Option Fault)} {h : Handoff}
    (hs : Serves (fresh o) (reqs ++ [.close]) answers h) :
    let calls := reqs.filterMap Request.call?
    ∃ h₁, Serves (fresh o) reqs (reqs.map Request.refusal) h₁ ∧
      h₁.drain.submitted = calls ∧ h₁.drain.results = (trace o calls).2 ∧
      h = h₁.drain.closed ∧ h.inner = (trace o calls).1 ∧
      answers = reqs.map Request.refusal ++
        [if calls.isEmpty then none
          else (((trace o calls).2.filterMap id).head?).or (trace o calls).1.close] ∧
      answers = (respondAll (Observer.defer o) (reqs ++ [.close])).1 := by
  intro calls
  obtain ⟨as₁, as₂, h₁, rfl, hs₁, hs₂⟩ := Serves.append hs
  obtain ⟨hi, hsub, hans⟩ := hs₁.requests (inv_fresh o) hreqs
  simp only [fresh, List.nil_append] at hsub
  -- closing is the one request left: it drains the worker
  obtain ⟨rfl, rfl⟩ : as₂ = [h₁.drain.closeFault] ∧ h = h₁.drain.closed := by
    cases hs₂ with
    | cons hr hrs =>
      cases hrs
      cases hr with
      | close => exact ⟨rfl, rfl⟩
      | refused hf => simp [Request.refusal] at hf
  have hd : Inv o h₁.drain := hi.iterate _
  have hran := hi.drain_ran
  have hdsub : h₁.drain.submitted = calls := by rw [drain, submitted_iterate, hsub]
  have ht := hd.trace_eq
  rw [hran, List.take_length, hdsub] at ht
  have hclose := hd.closeFault_eq hran
  rw [hdsub] at hclose
  refine ⟨h₁, hans ▸ hs₁, hdsub, by rw [ht], rfl, by rw [ht]; rfl, ?_, ?_⟩
  · rw [hans, hclose]
  · rw [hans, hclose, defer_eq, respondAll_append, respondAll_deferredOf o [] hreqs]
    simp [respondAll, respond, close_deferredOf, calls]

/-- A watchdog that fails at the first step, behind the hand-off. The worker runs both calls
before the futures are read, pruning keeps only the future of the failed step, and closing
reports that failure, as the deferred watchdog does. The state is one whose snapshot is
itself: its quaternion is not a number, so taking the snapshot does not normalize it. -/
theorem handoff_reports_failed_step :
    let s : SatState := { (default : SatState) with quaternion := ⟨0.0 / 0.0, 0.0, 0.0, 0.0⟩ }
    let o := Observer.watchdog 0 none (some 1)
    let reqs := [Request.start s, Request.notice s true]
    ∃ h, Serves (fresh o) (reqs ++ [.close])
        [none, none, some (.observerFailure "handler failed at step 1")] h ∧
      [none, none, some (.observerFailure "handler failed at step 1")] =
        (respondAll (Observer.defer o) (reqs ++ [.close])).1 := by
  intro s o reqs
  have hs : s.copy = .ok s := by
    have hq : s.quaternion.isFinite = false := by decide
    simp only [SatState.copy, SatState.ofParts, hq, Bool.false_eq_true, if_false]
    rfl
  have hserve : Serves (fresh o) (reqs ++ [.close])
      [none, none, some (.observerFailure "handler failed at step 1")] _ :=
    .cons (.start hs)
      (.cons (.notice 2 hs (⟨by decide, by decide⟩ : Pruned _ [1])) (.cons .close (.nil _)))
  obtain ⟨_, -, -, -, -, -, -, hdefer⟩ := serves_as_deferred (by simp [reqs]) hserve
  exact ⟨_, hserve, hdefer⟩

/-- A state whose quaternion has `1/√2` in its first two components, as building a state from
the attitude `(1, 1, 0, 0)` leaves it. -/
def halfTurnState : SatState :=
  { (default : SatState) with quaternion := ⟨0.7071067811865475, 0.7071067811865475, 0.0, 0.0⟩ }

/-- The snapshot handed over with an accepted step of `halfTurnState` is not that state: taking
the snapshot normalizes its quaternion once more, and that moves both components by a unit in
the last place. -/
theorem handoff_snapshot_moves_attitude :
    halfTurnState.quaternion.toList = [0.7071067811865475, 0.7071067811865475, 0.0, 0.0] ∧
      ∃ s, (Request.notice halfTurnState false).call? = some (.notice s false) ∧
        s.quaternion.toList = [0.7071067811865476, 0.7071067811865476, 0.0, 0.0] := by
  have hq : halfTurnState.copy.toOption.map (·.quaternion.toList) =
      some [0.7071067811865476, 0.7071067811865476, 0.0, 0.0] := by
    decide +kernel
  obtain ⟨s, hs, hsq⟩ := Option.map_eq_some_iff.1 hq
  exact ⟨rfl, s, by simp [Request.call?, hs], hsq⟩

end Handoff

end Spacecraft
