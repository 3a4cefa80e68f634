import Mathlib.Data.List.Basic

/-! Programs in `EStateM`: an exception leaves the state as it is where it is raised. -/

namespace Raising

variable {ε σ α β : Type}

/-- The program returns with `Q` or raises with `E`. -/
def Ends (m : EStateM ε σ α) (s : σ) (Q : α → σ → Prop) (E : ε → σ → Prop) : Prop :=
  match m s with
  | .ok a s' => Q a s'
  | .error e s' => E e s'

/-- The program raises an exception. -/
def Raises (m : EStateM ε σ α) (s : σ) : Prop := Ends m s (fun _ _ => False) fun _ _ => True

instance (m : EStateM ε σ α) (s : σ) : Decidable (Raises m s) := by
  unfold Raises Ends
  split <;> infer_instance

section Rules

variable {m : EStateM ε σ α} {s : σ} {Q Q' : α → σ → Prop} {E E' : ε → σ → Prop}

theorem ends_of_ok {a : α} {s' : σ} (run : m s = .ok a s') : Ends m s Q E ↔ Q a s' := by
  unfold Ends
  rw [run]

theorem ends_of_error {e : ε} {s' : σ} (run : m s = .error e s') : Ends m s Q E ↔ E e s' := by
  unfold Ends
  rw [run]

theorem Ends.of_ok {a : α} {s' : σ} (ends : Ends m s Q E) (run : m s = .ok a s') : Q a s' :=
  (ends_of_ok run).mp ends

theorem Ends.of_error {e : ε} {s' : σ} (ends : Ends m s Q E) (run : m s = .error e s') :
    E e s' :=
  (ends_of_error run).mp ends

theorem Ends.mono (ends : Ends m s Q E) (returns : ∀ {a s'}, Q a s' → Q' a s')
    (raises : ∀ {e s'}, E e s' → E' e s') : Ends m s Q' E' := by
  cases run : m s with
  | ok a s' => exact (ends_of_ok run).mpr (returns (ends.of_ok run))
  | error e s' => exact (ends_of_error run).mpr (raises (ends.of_error run))

theorem raises_iff : Raises m s ↔ ∃ e s', m s = .error e s' := by
  unfold Raises Ends
  cases m s with
  | ok a s' => simp
  | error e s' => simp

theorem bind_of_error {e : ε} {s' : σ} {k : α → EStateM ε σ β} (run : m s = .error e s') :
    (m >>= k) s = .error e s' := by
  change EStateM.bind m k s = _
  rw [EStateM.bind, run]

theorem bind_of_ok {a : α} {s' : σ} {k : α → EStateM ε σ β} (run : m s = .ok a s') :
    (m >>= k) s = k a s' := by
  change EStateM.bind m k s = _
  rw [EStateM.bind, run]

@[simp] theorem ends_bind {k : α → EStateM ε σ β} {Q : β → σ → Prop} :
    Ends (m >>= k) s Q E ↔ Ends m s (fun a s' => Ends (k a) s' Q E) E := by
  cases run : m s with
  | ok a s' => rw [ends_of_ok run, Ends, bind_of_ok run, Ends]
  | error e s' => rw [ends_of_error run, ends_of_error (bind_of_error run)]

@[simp] theorem ends_pure {a : α} : Ends (pure a : EStateM ε σ α) s Q E ↔ Q a s := Iff.rfl

@[simp] theorem ends_throw {e : ε} : Ends (throw e : EStateM ε σ α) s Q E ↔ E e s := Iff.rfl

@[simp] theorem ends_get {Q : σ → σ → Prop} :
    Ends (get : EStateM ε σ σ) s Q E ↔ Q s s := Iff.rfl

@[simp] theorem ends_modify {f : σ → σ} {Q : Unit → σ → Prop} :
    Ends (modify f : EStateM ε σ Unit) s Q E ↔ Q () (f s) := Iff.rfl

end Rules

end Raising
