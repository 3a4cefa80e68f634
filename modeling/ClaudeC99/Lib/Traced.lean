import ClaudeC99.Lib.StateExcept

/-! Programs in a state and exception monad that leave a trace; an exception keeps what was left. -/

namespace StateExcept

variable {σ ε τ α β : Type}

def Traced (σ ε τ α : Type) : Type := σ → List τ × Except ε (α × σ)

namespace Traced

instance : Monad (Traced σ ε τ) where
  pure a := fun s => ([], .ok (a, s))
  bind x f := fun s =>
    match (x s).2 with
    | .ok (a, s') => ((x s).1 ++ (f a s').1, (f a s').2)
    | .error e => ((x s).1, .error e)

def silent (m : StateT σ (Except ε) α) : Traced σ ε τ α := fun s => ([], m s)

def touch (t : τ) : Traced σ ε τ Unit := fun s => ([t], .ok ((), s))

/-- The program without its trace. -/
def program (x : Traced σ ε τ α) : StateT σ (Except ε) α := fun s => (x s).2

@[simp] theorem program_pure (a : α) : (pure a : Traced σ ε τ α).program = pure a := rfl

@[simp] theorem program_silent (m : StateT σ (Except ε) α) :
    (silent m : Traced σ ε τ α).program = m := rfl

@[simp] theorem program_touch (t : τ) : (touch t : Traced σ ε τ Unit).program = pure () := rfl

@[simp] theorem program_bind (x : Traced σ ε τ α) (f : α → Traced σ ε τ β) :
    (x >>= f).program = x.program >>= fun a => (f a).program := by
  funext s
  have left : (x >>= f).program s = match (x s).2 with
      | .ok (a, s') => (f a s').2
      | .error e => .error e := by
    change (match (x s).2 with
      | .ok (a, s') => ((x s).1 ++ (f a s').1, (f a s').2)
      | .error e => ((x s).1, .error e)).2 = _
    cases (x s).2 <;> rfl
  rw [left]
  change _ = ((x s).2).bind fun p => (f p.1 p.2).2
  cases (x s).2 <;> rfl

@[simp] theorem program_ite (c : Prop) [Decidable c] (x y : Traced σ ε τ α) :
    (if c then x else y).program = if c then x.program else y.program :=
  apply_ite program c x y

/-- What the program leaves, started in `s`. -/
def trace (x : Traced σ ε τ α) (s : σ) : List τ := (x s).1

@[simp] theorem trace_pure (a : α) (s : σ) : (pure a : Traced σ ε τ α).trace s = [] := rfl

@[simp] theorem trace_silent (m : StateT σ (Except ε) α) (s : σ) :
    (silent m : Traced σ ε τ α).trace s = [] := rfl

@[simp] theorem trace_touch (t : τ) (s : σ) : (touch t : Traced σ ε τ Unit).trace s = [t] := rfl

theorem trace_bind_of_yields {x : Traced σ ε τ α} {f : α → Traced σ ε τ β} {s s' : σ} {a : α}
    (first : Yields x.program s a s') : (x >>= f).trace s = x.trace s ++ (f a).trace s' := by
  change (match (x s).2 with
      | .ok (a, s') => ((x s).1 ++ (f a s').1, (f a s').2)
      | .error e => ((x s).1, .error e)).1 = _
  have result : (x s).2 = .ok (a, s') := first
  rw [result]
  rfl

theorem trace_bind_of_error {x : Traced σ ε τ α} {f : α → Traced σ ε τ β} {s : σ} {e : ε}
    (first : x.program s = .error e) : (x >>= f).trace s = x.trace s := by
  change (match (x s).2 with
      | .ok (a, s') => ((x s).1 ++ (f a s').1, (f a s').2)
      | .error e => ((x s).1, .error e)).1 = _
  have result : (x s).2 = .error e := first
  rw [result]
  rfl

/-- All that the program leaves has the property. -/
def Leaves (P : τ → Prop) (x : Traced σ ε τ α) (s : σ) : Prop := ∀ t ∈ x.trace s, P t

variable {P : τ → Prop}

theorem leaves_bind {x : Traced σ ε τ α} {f : α → Traced σ ε τ β} {s : σ} :
    Leaves P (x >>= f) s ↔
      Leaves P x s ∧ ∀ a s', Yields x.program s a s' → Leaves P (f a) s' := by
  unfold Leaves
  cases run : x.program s with
  | error e =>
    rw [trace_bind_of_error run]
    refine (and_iff_left fun a s' first => ?_).symm
    cases run.symm.trans first
  | ok p =>
    have yields : Yields x.program s p.1 p.2 := run
    rw [trace_bind_of_yields yields, List.forall_mem_append]
    refine and_congr_right fun _ => ⟨fun rest a s' first => ?_, fun rest => rest p.1 p.2 run⟩
    cases Except.ok.inj (run.symm.trans first)
    exact rest

@[simp] theorem leaves_pure (a : α) (s : σ) : Leaves P (pure a : Traced σ ε τ α) s := by
  simp [Leaves]

@[simp] theorem leaves_silent (m : StateT σ (Except ε) α) (s : σ) :
    Leaves P (silent m : Traced σ ε τ α) s := by
  simp [Leaves]

@[simp] theorem leaves_touch (t : τ) (s : σ) : Leaves P (touch t : Traced σ ε τ Unit) s ↔ P t := by
  simp [Leaves]

end Traced

end StateExcept
