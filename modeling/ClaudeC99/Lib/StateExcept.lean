import Mathlib.Logic.Basic

/-! Successful runs of programs in a state and exception monad. -/

namespace StateExcept

variable {σ ε α β : Type}

theorem bind_eq_ok {x : Except ε α} {f : α → Except ε β} {b : β} :
    x >>= f = .ok b ↔ ∃ a, x = .ok a ∧ f a = .ok b := by
  cases x with
  | error e => simp [bind, Except.bind]
  | ok a => simp [bind, Except.bind]

/-- `m`, started in `s`, ends without an exception, returning `a` in state `s'`. -/
def Yields (m : StateT σ (Except ε) α) (s : σ) (a : α) (s' : σ) : Prop :=
  m s = .ok (a, s')

theorem exists_yields {m : StateT σ (Except ε) α} {s : σ} (ok : (m s).isOk = true) :
    ∃ a s', Yields m s a s' := by
  cases run : m s with
  | error e =>
    rw [run] at ok
    cases ok
  | ok p => exact ⟨p.1, p.2, run⟩

theorem yields_bind {m : StateT σ (Except ε) α} {k : α → StateT σ (Except ε) β} {s s' : σ}
    {b : β} : Yields (m >>= k) s b s' ↔ ∃ a t, Yields m s a t ∧ Yields (k a) t b s' := by
  have run : (m >>= k) s = (m s).bind fun p => k p.1 p.2 := rfl
  unfold Yields
  rw [run]
  cases h : m s with
  | error e => simp [Except.bind]
  | ok p =>
    constructor
    · intro hk
      exact ⟨p.1, p.2, rfl, hk⟩
    · rintro ⟨a, t, ht, hk⟩
      cases ht
      exact hk

/-- A run whose first part is known goes on from there. -/
theorem run_bind_of {m : StateT σ (Except ε) α} {k : α → StateT σ (Except ε) β} {s t : σ} {a : α}
    (first : Yields m s a t) : (m >>= k) s = k a t := by
  have run : (m >>= k) s = (m s).bind fun p => k p.1 p.2 := rfl
  rw [run, first]
  rfl

theorem yields_bind_of {m : StateT σ (Except ε) α} {k : α → StateT σ (Except ε) β} {s t s' : σ}
    {a : α} {b : β} (first : Yields m s a t) : Yields (m >>= k) s b s' ↔ Yields (k a) t b s' := by
  rw [Yields, run_bind_of first]
  rfl

@[simp] theorem yields_pure {a b : α} {s s' : σ} :
    Yields (pure a : StateT σ (Except ε) α) s b s' ↔ a = b ∧ s = s' := by
  have run : (pure a : StateT σ (Except ε) α) s = .ok (a, s) := rfl
  rw [Yields, run, Except.ok.injEq, Prod.mk.injEq]

@[simp] theorem yields_get {a s s' : σ} :
    Yields (get : StateT σ (Except ε) σ) s a s' ↔ s = a ∧ s = s' := by
  have run : (get : StateT σ (Except ε) σ) s = .ok (s, s) := rfl
  rw [Yields, run, Except.ok.injEq, Prod.mk.injEq]

@[simp] theorem yields_set {t s s' : σ} {u : PUnit} :
    Yields (set t : StateT σ (Except ε) PUnit) s u s' ↔ t = s' := by
  have run : (set t : StateT σ (Except ε) PUnit) s = .ok (⟨⟩, t) := rfl
  rw [Yields, run, Except.ok.injEq, Prod.mk.injEq]
  exact and_iff_right rfl

@[simp] theorem yields_modify {f : σ → σ} {s s' : σ} {u : PUnit} :
    Yields (modify f : StateT σ (Except ε) PUnit) s u s' ↔ f s = s' := by
  have run : (modify f : StateT σ (Except ε) PUnit) s = .ok (⟨⟩, f s) := rfl
  rw [Yields, run, Except.ok.injEq, Prod.mk.injEq]
  exact and_iff_right rfl

@[simp] theorem yields_throw {e : ε} {a : α} {s s' : σ} :
    ¬ Yields (throw e : StateT σ (Except ε) α) s a s' := by
  have run : (throw e : StateT σ (Except ε) α) s = .error e := rfl
  rw [Yields, run]
  intro h
  cases h

@[simp] theorem yields_lift {x : Except ε α} {a : α} {s s' : σ} :
    Yields (liftM x : StateT σ (Except ε) α) s a s' ↔ x = .ok a ∧ s = s' := by
  have run : (liftM x : StateT σ (Except ε) α) s = x.bind fun a => .ok (a, s) := rfl
  rw [Yields, run]
  cases x with
  | error e => simp [Except.bind]
  | ok b => simp [Except.bind]

end StateExcept
