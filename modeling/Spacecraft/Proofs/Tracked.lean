import Mathlib
import Spacecraft.Fault

/-!
# Running fallible and tracked computations

How an `Outcome` that succeeds was reached, and how a `Tracked` computation runs from a state:
one equation per building block, so that a computation written in `do` notation is run by
`simp` one step at a time.
-/

namespace Spacecraft

theorem Outcome.bind_eq_ok {α β : Type} {x : Outcome α} {g : α → Outcome β} {b : β}
    (h : x >>= g = .ok b) : ∃ a, x = .ok a ∧ g a = .ok b := by
  cases x with
  | error e => cases h
  | ok a => exact ⟨a, rfl, h⟩

theorem Outcome.map_eq_ok {α β : Type} {x : Outcome α} {g : α → β} {b : β}
    (h : x.map g = .ok b) : ∃ a, x = .ok a ∧ g a = b := by
  cases x with
  | error e => cases h
  | ok a => exact ⟨a, rfl, Except.ok.inj h⟩

@[simp] theorem Outcome.ok_bind {α β : Type} (a : α) (f : α → Outcome β) :
    ((.ok a : Outcome α) >>= f) = f a := rfl

/-- An outcome that succeeded holds a value. -/
theorem Outcome.exists_of_isOk {α : Type} {x : Outcome α} (h : x.isOk = true) : ∃ a, x = .ok a := by
  cases x with
  | error _ => cases h
  | ok a => exact ⟨a, rfl⟩

/-- A map over a list that succeeds maps every element in place. -/
theorem Outcome.mapM_getElem? {α β : Type} {f : α → Outcome β} {l : List α} {l' : List β}
    (h : l.mapM f = .ok l') (j : Nat) {x : α} (hx : l[j]? = some x) :
    ∃ y, f x = .ok y ∧ l'[j]? = some y := by
  induction l generalizing l' j with
  | nil => simp at hx
  | cons a l ih =>
    rw [List.mapM_cons] at h
    obtain ⟨b, hb, h⟩ := Outcome.bind_eq_ok h
    obtain ⟨bs, hbs, h⟩ := Outcome.bind_eq_ok h
    cases h
    cases j with
    | zero =>
      cases hx
      exact ⟨b, hb, rfl⟩
    | succ j => exact ih hbs j hx

/-- A map over a list succeeds only if it succeeds on every entry. -/
theorem Outcome.mapM_eq_ok {α β : Type} {f : α → Outcome β} {l : List α} {ys : List β}
    (h : l.mapM f = .ok ys) : ∀ x ∈ l, ∃ y, f x = .ok y := by
  intro x hx
  obtain ⟨j, hj⟩ := List.mem_iff_getElem?.1 hx
  obtain ⟨y, hy, -⟩ := Outcome.mapM_getElem? h j hj
  exact ⟨y, hy⟩

/-- A check that refuses when its condition holds lets through only what fails it. -/
theorem Outcome.ite_throw_eq_ok {α : Type} {p : Prop} [Decidable p] {e : Fault} {r : Outcome α}
    {a : α} (h : (if p then throw e else r) = .ok a) : ¬ p ∧ r = .ok a := by
  by_cases hp : p
  · rw [if_pos hp] at h
    cases h
  · rw [if_neg hp] at h
    exact ⟨hp, h⟩

/-- The same for a check that refuses when its condition fails. -/
theorem Outcome.ite_else_throw_eq_ok {α : Type} {p : Prop} [Decidable p] {e : Fault}
    {r : Outcome α} {a : α} (h : (if p then r else throw e) = .ok a) : p ∧ r = .ok a := by
  by_cases hp : p
  · rw [if_pos hp] at h
    exact ⟨hp, h⟩
  · rw [if_neg hp] at h
    cases h

/-- A loop of checks over a list passes only if every entry passes. -/
theorem Outcome.forM_eq_ok {α : Type} {f : α → Outcome Unit} {l : List α}
    (h : l.forM f = .ok ()) : ∀ x ∈ l, f x = .ok () := by
  induction l with
  | nil => intro x hx; cases hx
  | cons a l ih =>
    unfold List.forM at h
    obtain ⟨u, ha, hl⟩ := Outcome.bind_eq_ok h
    intro x hx
    rcases List.mem_cons.1 hx with rfl | hx
    · exact ha
    · exact ih hl x hx

namespace Tracked

variable {σ τ α β : Type}

@[simp] theorem runFrom_pure (a : α) (s : σ) : runFrom (pure a : Tracked σ α) s = (.ok a, s) :=
  rfl

@[simp] theorem runFrom_get (s : σ) : runFrom (get : Tracked σ σ) s = (.ok s, s) := rfl

@[simp] theorem runFrom_set (s s' : σ) : runFrom (set s' : Tracked σ PUnit) s = (.ok ⟨⟩, s') :=
  rfl

@[simp] theorem runFrom_lift (o : Outcome α) (s : σ) : runFrom (lift o : Tracked σ α) s = (o, s) :=
  rfl

@[simp] theorem runFrom_modify (g : σ → σ) (s : σ) :
    runFrom (modify g : Tracked σ PUnit) s = (.ok ⟨⟩, g s) :=
  rfl

@[simp] theorem runFrom_focus (view : σ → τ) (update : σ → τ → σ) (m : Tracked τ α) (s : σ) :
    runFrom (focus view update m) s = ((runFrom m (view s)).1, update s (runFrom m (view s)).2) :=
  rfl

theorem runFrom_bind (m : Tracked σ α) (f : α → Tracked σ β) (s : σ) :
    runFrom (m >>= f) s =
      match runFrom m s with
      | (.ok a, s') => runFrom (f a) s'
      | (.error e, s') => (.error e, s') := by
  unfold runFrom
  simp only [ExceptT.run_bind, StateT.run_bind, Id.run]
  rcases (m.run.run s) with ⟨_ | a, s'⟩ <;> rfl

theorem runFrom_map (f : α → β) (m : Tracked σ α) (s : σ) :
    runFrom (f <$> m) s = ((runFrom m s).1.map f, (runFrom m s).2) := by
  unfold runFrom
  simp only [ExceptT.run_map, StateT.run_map, Id.run]
  rcases (m.run.run s) with ⟨_ | a, s'⟩ <;> rfl

@[simp] theorem snd_runFrom_map (f : α → β) (m : Tracked σ α) (s : σ) :
    (runFrom (f <$> m) s).2 = (runFrom m s).2 := by
  rw [runFrom_map]

@[simp] theorem fst_runFrom_map (f : α → β) (m : Tracked σ α) (s : σ) :
    (runFrom (f <$> m) s).1 = (runFrom m s).1.map f := by
  rw [runFrom_map]

/-- A computation that starts by reading its state runs on that state. -/
@[simp] theorem runFrom_get_bind (k : σ → Tracked σ α) (s : σ) :
    runFrom (get >>= k) s = runFrom (k s) s := by
  rw [runFrom_bind, runFrom_get]

/-- A plain outcome in front of a computation stops it or hands it its value, and touches no
state. -/
@[simp] theorem runFrom_lift_bind (o : Outcome α) (k : α → Tracked σ β) (s : σ) :
    runFrom (lift o >>= k) s =
      match o with
      | .ok a => runFrom (k a) s
      | .error e => (.error e, s) := by
  rw [runFrom_bind, runFrom_lift]
  cases o <;> rfl

/-- What a computation leaves, when it ends by returning a value built from what came
before. -/
@[simp] theorem snd_runFrom_bind_pure (m : Tracked σ α) (f : α → β) (s : σ) :
    (runFrom (m >>= fun a => pure (f a)) s).2 = (runFrom m s).2 := by
  rw [bind_pure_comp, snd_runFrom_map]

/-- A composite computation that succeeds got there through a first part that succeeded. -/
theorem runFrom_bind_eq_ok {m : Tracked σ α} {k : α → Tracked σ β} {s s'' : σ} {b : β}
    (h : runFrom (m >>= k) s = (.ok b, s'')) :
    ∃ a s', runFrom m s = (.ok a, s') ∧ runFrom (k a) s' = (.ok b, s'') := by
  rw [runFrom_bind] at h
  rcases hm : runFrom m s with ⟨_ | a, s'⟩
  · simp [hm] at h
  · exact ⟨a, s', rfl, by simpa [hm] using h⟩

/-- A computation behind a plain outcome that succeeds had that outcome succeed. -/
theorem runFrom_lift_bind_eq_ok {o : Outcome α} {k : α → Tracked σ β} {s s' : σ} {b : β}
    (h : runFrom (lift o >>= k) s = (.ok b, s')) : ∃ a, o = .ok a ∧ runFrom (k a) s = (.ok b, s') := by
  rw [runFrom_lift_bind] at h
  cases o with
  | error e => cases h
  | ok a => exact ⟨a, rfl, h⟩

/-- `m` keeps what `f` sees of its state: from every state, the state it leaves, whether it
succeeds or fails, looks the same through `f`. -/
def Keeps {γ : Type} (f : σ → γ) (m : Tracked σ α) : Prop := ∀ s, f (runFrom m s).2 = f s

variable {γ : Type} {f : σ → γ}

theorem keeps_pure (a : α) : Keeps f (pure a : Tracked σ α) := fun _ => rfl

theorem keeps_lift (o : Outcome α) : Keeps f (lift o : Tracked σ α) := fun _ => rfl

/-- The state a computation that keeps a view leaves looks, through the view, like the state
it started from. -/
theorem Keeps.eq_of_runFrom {m : Tracked σ α} (hm : Keeps f m) {s s' : σ} {o : Outcome α}
    (h : runFrom m s = (o, s')) : f s' = f s := by
  have hs := hm s
  rwa [h] at hs

theorem Keeps.bind {m : Tracked σ α} {k : α → Tracked σ β} (hm : Keeps f m)
    (hk : ∀ a, Keeps f (k a)) : Keeps f (m >>= k) := by
  intro s
  rw [runFrom_bind]
  rcases h : runFrom m s with ⟨_ | a, s'⟩
  · simpa [h] using hm s
  · simp only
    rw [hk a s', ← hm s, h]

theorem Keeps.map {m : Tracked σ α} (hm : Keeps f m) (g : α → β) : Keeps f (g <$> m) := by
  intro s
  rw [snd_runFrom_map, hm s]

/-- A computation keeps a view from a given state if its first part does and every way to go
on keeps it. -/
theorem keepsAt_bind {m : Tracked σ α} {k : α → Tracked σ β} {s : σ}
    (hm : f (runFrom m s).2 = f s) (hk : ∀ a, Keeps f (k a)) : f (runFrom (m >>= k) s).2 = f s := by
  rw [runFrom_bind]
  rcases h : runFrom m s with ⟨_ | a, s'⟩
  · simpa [h] using hm
  · simp only
    rw [hk a s', ← hm, h]

/-- A plain outcome in front of a computation keeps a view from a state if every way to go on
keeps it from that state. -/
theorem keepsAt_lift_bind {o : Outcome α} {k : α → Tracked σ β} {s : σ}
    (hk : ∀ a, f (runFrom (k a) s).2 = f s) : f (runFrom (lift o >>= k) s).2 = f s := by
  rw [runFrom_lift_bind]
  cases o with
  | error e => rfl
  | ok a => exact hk a

/-- A computation that reads its state first keeps a view if what follows keeps it from the
state it read. -/
theorem keeps_get_bind {k : σ → Tracked σ α} (hk : ∀ s, f (runFrom (k s) s).2 = f s) :
    Keeps f (get >>= k) := by
  intro s
  rw [runFrom_get_bind, hk s]

/-- A computation on one part of the state keeps a view of the whole if it keeps a view `g`
of the part and putting back a part that `g` cannot tell apart is invisible to the view of
the whole. -/
theorem Keeps.focus {g : τ → γ} {view : σ → τ} {update : σ → τ → σ} {m : Tracked τ α}
    (hm : Keeps g m) (hu : ∀ s t, g t = g (view s) → f (update s t) = f s) :
    Keeps f (focus view update m) := by
  intro s
  rw [runFrom_focus]
  exact hu s _ (hm (view s))

end Tracked

end Spacecraft
