import Mathlib.Data.List.Basic

/-! Computations that read a state and change it through events. -/

namespace Effects

variable {σ ε α β : Type}

structure Outcome (σ ε α : Type) where
  result : α
  state : σ
  events : List ε

/-- A computation from a state. -/
def Run (σ ε α : Type) : Type := σ → Outcome σ ε α

namespace Run

instance : Monad (Run σ ε) where
  pure a := fun s => ⟨a, s, []⟩
  bind x f := fun s =>
    let o := x s
    let p := f o.result o.state
    ⟨p.result, p.state, o.events ++ p.events⟩

def get : Run σ ε σ := fun s => ⟨s, s, []⟩

/-- One event, with its effect on the state. -/
def perform (effect : ε → σ → σ) (event : ε) : Run σ ε Unit := fun s =>
  ⟨(), effect event s, [event]⟩

@[simp] theorem pure_apply (a : α) (s : σ) : (pure a : Run σ ε α) s = ⟨a, s, []⟩ := rfl

@[simp] theorem get_apply (s : σ) : (get : Run σ ε σ) s = ⟨s, s, []⟩ := rfl

@[simp] theorem perform_apply (effect : ε → σ → σ) (event : ε) (s : σ) :
    perform effect event s = ⟨(), effect event s, [event]⟩ := rfl

@[simp] theorem bind_result (x : Run σ ε α) (f : α → Run σ ε β) (s : σ) :
    ((x >>= f) s).result = (f (x s).result (x s).state).result := rfl

@[simp] theorem bind_state (x : Run σ ε α) (f : α → Run σ ε β) (s : σ) :
    ((x >>= f) s).state = (f (x s).result (x s).state).state := rfl

@[simp] theorem bind_events (x : Run σ ε α) (f : α → Run σ ε β) (s : σ) :
    ((x >>= f) s).events = (x s).events ++ (f (x s).result (x s).state).events := rfl

theorem bind_congr_left {x y : Run σ ε α} {s : σ} (same : x s = y s) (f : α → Run σ ε β) :
    (x >>= f) s = (y >>= f) s := by
  show Outcome.mk _ _ _ = Outcome.mk _ _ _
  rw [same]

/-- A computation without events and changes is left out. -/
theorem bind_of_still {x : Run σ ε α} {s : σ} (events : (x s).events = []) (state : (x s).state = s)
    (f : α → Run σ ε β) : (x >>= f) s = f (x s).result s := by
  show Outcome.mk _ _ _ = _
  rw [events, state]
  rfl

theorem ext_outcome {x y : Outcome σ ε α} (result : x.result = y.result) (state : x.state = y.state)
    (events : x.events = y.events) : x = y := by
  obtain ⟨_, _, _⟩ := x
  obtain ⟨_, _, _⟩ := y
  simp_all

/-- The state changes through the events only. -/
def Determined (effect : ε → σ → σ) (x : Run σ ε α) : Prop :=
  ∀ s, (x s).state = (x s).events.foldl (fun s event => effect event s) s

/-- No event, from any state. -/
def Silent (x : Run σ ε α) : Prop := ∀ s, (x s).events = []

variable {effect : ε → σ → σ}

theorem determined_pure (a : α) : Determined effect (pure a : Run σ ε α) := fun _ => rfl

theorem determined_get : Determined effect (get : Run σ ε σ) := fun _ => rfl

theorem determined_perform (event : ε) : Determined effect (perform effect event) := fun _ => rfl

theorem Determined.bind {x : Run σ ε α} {f : α → Run σ ε β} (h_x : Determined effect x)
    (h_f : ∀ a, Determined effect (f a)) : Determined effect (x >>= f) := by
  intro s
  rw [bind_state, bind_events, List.foldl_append, ← h_x s]
  exact h_f _ _

/-- Computations with the same events lead to the same state. -/
theorem Determined.state_eq {x : Run σ ε α} {y : Run σ ε β} {s : σ} (h_x : Determined effect x)
    (h_y : Determined effect y) (h_events : (x s).events = (y s).events) :
    (x s).state = (y s).state := by
  rw [h_x, h_y, h_events]

theorem Determined.state_of_silent {x : Run σ ε α} {s : σ} (h_x : Determined effect x)
    (h_silent : (x s).events = []) : (x s).state = s := by
  rw [h_x, h_silent]
  rfl

/-- Where `y` performs no event, `x` performs none either and has a result like that of `y`. -/
def Follows (Same : α → β → Prop) (x : Run σ ε α) (y : Run σ ε β) : Prop :=
  ∀ s, (y s).events = [] →
    (x s).events = [] ∧ (x s).state = s ∧ Same (x s).result (y s).result

variable {α' β' : Type} {Same : α → β → Prop} {Same' : α' → β' → Prop}

theorem follows_pure {a : α} {b : β} (same : Same a b) :
    Follows Same (pure a : Run σ ε α) (pure b : Run σ ε β) :=
  fun _ _ => ⟨rfl, rfl, same⟩

theorem follows_of_event {x : Run σ ε α} {y : Run σ ε β} (event : ∀ s, (y s).events ≠ []) :
    Follows Same x y :=
  fun s none => absurd none (event s)

/-- `y` is made of computations that change the state through events only. -/
theorem Follows.bind {x : Run σ ε α} {y : Run σ ε β} {f : α → Run σ ε α'} {g : β → Run σ ε β'}
    (h : Follows Same x y) (determined : Determined effect y)
    (rest : ∀ a b, Same a b → Follows Same' (f a) (g b)) : Follows Same' (x >>= f) (y >>= g) := by
  intro s none
  obtain ⟨left, right⟩ := List.append_eq_nil_iff.mp none
  have still := determined.state_of_silent left
  obtain ⟨no, here, results⟩ := h s left
  rw [still] at right
  obtain ⟨no', here', results'⟩ := rest _ _ results s right
  refine ⟨?_, ?_, ?_⟩
  · rw [bind_events, no, here, no']
    rfl
  · rw [bind_state, here, here']
  · rw [bind_result, bind_result, here, still]
    exact results'

end Run

end Effects
