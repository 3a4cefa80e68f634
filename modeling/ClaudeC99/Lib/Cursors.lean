import ClaudeC99.Lib.StateExcept
import Mathlib.Data.List.TakeWhile

/-! Programs that move a cursor over a text with an end mark. A read behind the mark, a position
above the largest one and a loop that does not end are faults; a program may also stop with a
report of its own. -/

namespace Cursors

structure Tape (γ : Type) where
  chars : List γ
  mark : γ
  unmarked : mark ∉ chars
  limit : Nat

/-- A position and what the program keeps beside it. -/
structure Cursor (σ : Type) where
  pos : Nat
  info : σ

inductive Stop (ε : Type)
  | report (e : ε)
  | outside
  | overflow
  | unending

abbrev Prog (σ ε α : Type) := StateT (Cursor σ) (Except (Stop ε)) α

variable {γ σ ε α β : Type}

namespace Tape

variable (T : Tape γ)

def size : Nat := T.chars.length

/-- The character at a position, the mark behind the last one. -/
def value (i : Nat) : γ := T.chars[i]?.getD T.mark

def read (i : Nat) : Except (Stop ε) γ :=
  if T.limit < i then .error .overflow
  else if T.size < i then .error .outside
  else .ok (T.value i)

def peek (k : Nat) : Prog σ ε γ := fun c => (T.read (c.pos + k)).map (·, c)

/-- One position on. -/
def bump : Prog σ ε Unit := fun c =>
  if c.pos < T.limit then .ok ((), { c with pos := c.pos + 1 }) else .error .overflow

def report (e : ε) : Prog σ ε α := fun _ => .error (.report e)

def unending : Prog σ ε α := fun _ => .error .unending

/-- One position on, where `note` says how the character passed changes what is kept. -/
def advance (note : γ → σ → σ) : Prog σ ε Unit := do
  let c ← T.peek 0
  modify fun k => { k with info := note c k.info }
  T.bump

def advanceBy (note : γ → σ → σ) : Nat → Prog σ ε Unit
  | 0 => pure ()
  | n + 1 => do
    T.advance note
    advanceBy note n

/-- As many rounds as a loop over the text has. -/
def rounds : Nat := T.size + 1

/-- The characters passed while `p` holds and there is room. -/
def passWhile (note : γ → σ → σ) (p : γ → Bool) : Nat → Nat → Prog σ ε (List γ)
  | 0, _ => unending
  | n + 1, room => do
    let c ← T.peek 0
    if p c = true ∧ 0 < room then
      T.advance note
      let rest ← passWhile note p n (room - 1)
      return c :: rest
    else return []

end Tape

/-- The program ends at `c` with no fault: it returns as `Q` says or reports what `E` allows. -/
def Ends (m : Prog σ ε α) (c : Cursor σ) (Q : α → Cursor σ → Prop) (E : ε → Prop) : Prop :=
  match m c with
  | .ok (a, c') => Q a c'
  | .error (.report e) => E e
  | .error _ => False

section Rules

variable {m : Prog σ ε α} {k : α → Prog σ ε β} {c : Cursor σ} {E : ε → Prop}

theorem Ends.mono {Q Q' : α → Cursor σ → Prop} {E' : ε → Prop} (ends : Ends m c Q E)
    (returns : ∀ {a c'}, Q a c' → Q' a c') (reports : ∀ {e}, E e → E' e) : Ends m c Q' E' := by
  unfold Ends at ends ⊢
  split
  · exact returns (by simp_all)
  · exact reports (by simp_all)
  · simp_all

theorem ends_bind {Q : β → Cursor σ → Prop} :
    Ends (m >>= k) c Q E ↔ Ends m c (fun a c' => Ends (k a) c' Q E) E := by
  have run : (m >>= k) c = (m c).bind fun p => k p.1 p.2 := rfl
  unfold Ends
  rw [run]
  cases m c with
  | error stop => cases stop <;> rfl
  | ok p => rfl

@[simp] theorem ends_pure {a : α} {Q : α → Cursor σ → Prop} :
    Ends (pure a : Prog σ ε α) c Q E ↔ Q a c := Iff.rfl

@[simp] theorem ends_report {e : ε} {Q : α → Cursor σ → Prop} :
    Ends (Tape.report e : Prog σ ε α) c Q E ↔ E e := Iff.rfl

@[simp] theorem ends_modify {f : Cursor σ → Cursor σ} {Q : Unit → Cursor σ → Prop} :
    Ends (modify f : Prog σ ε Unit) c Q E ↔ Q () (f c) := Iff.rfl

@[simp] theorem ends_get {Q : Cursor σ → Cursor σ → Prop} :
    Ends (get : Prog σ ε (Cursor σ)) c Q E ↔ Q c c := Iff.rfl

end Rules

namespace Tape

variable {T : Tape γ} {c : Cursor σ} {E : ε → Prop} {note : γ → σ → σ}

theorem value_inside {i : Nat} (inside : i < T.size) : T.value i = T.chars[i] := by
  rw [value, List.getElem?_eq_getElem inside]
  rfl

theorem value_size : T.value T.size = T.mark := by
  simp [value, size]

/-- Before the mark there is another character. -/
theorem inside_of_value {i : Nat} (within : i ≤ T.size) (other : T.value i ≠ T.mark) :
    i < T.size := by
  apply Nat.lt_of_le_of_ne within
  intro last
  rw [last] at other
  exact other value_size

theorem value_of_inside {i : Nat} (inside : i < T.size) : T.value i ≠ T.mark := by
  rw [value_inside inside]
  intro same
  exact T.unmarked (same ▸ List.getElem_mem _)

theorem drop_inside {i : Nat} (inside : i < T.size) :
    T.chars.drop i = T.value i :: T.chars.drop (i + 1) := by
  rw [value_inside inside]
  exact List.drop_eq_getElem_cons inside

theorem drop_size : T.chars.drop T.size = [] := List.drop_length

theorem not_ends_peek {k : Nat} {Q : γ → Cursor σ → Prop} (high : T.limit < c.pos + k) :
    ¬ Ends (T.peek k) c Q E := by
  simp [Ends, peek, read, high, Except.map]

theorem not_ends_bump {Q : Unit → Cursor σ → Prop} (last : T.limit ≤ c.pos) :
    ¬ Ends T.bump c Q E := by
  have high : ¬ c.pos < T.limit := Nat.not_lt.mpr last
  simp [Ends, bump, high]

theorem ends_peek_low {k : Nat} {Q : γ → Cursor σ → Prop} (low : c.pos + k ≤ T.limit)
    (within : c.pos + k ≤ T.size) : Ends (T.peek k) c Q E ↔ Q (T.value (c.pos + k)) c := by
  simp [Ends, peek, read, Nat.not_lt.mpr low, Nat.not_lt.mpr within, Except.map]

theorem ends_bump_low {Q : Unit → Cursor σ → Prop} (low : c.pos < T.limit) :
    Ends T.bump c Q E ↔ Q () { c with pos := c.pos + 1 } := by
  simp [Ends, bump, low]

variable (fits : T.size ≤ T.limit)

include fits

theorem ends_peek {k : Nat} {Q : γ → Cursor σ → Prop} (within : c.pos + k ≤ T.size) :
    Ends (T.peek k) c Q E ↔ Q (T.value (c.pos + k)) c :=
  ends_peek_low (within.trans fits) within

theorem ends_bump {Q : Unit → Cursor σ → Prop} (inside : c.pos < T.size) :
    Ends T.bump c Q E ↔ Q () { c with pos := c.pos + 1 } :=
  ends_bump_low (Nat.lt_of_lt_of_le inside fits)

omit fits

/-- The cursor `n` characters on. -/
def after (T : Tape γ) (note : γ → σ → σ) (c : Cursor σ) : Nat → Cursor σ
  | 0 => c
  | n + 1 => T.after note ⟨c.pos + 1, note (T.value c.pos) c.info⟩ n

theorem after_pos (c : Cursor σ) (n : Nat) : (T.after note c n).pos = c.pos + n := by
  induction n generalizing c with
  | zero => rfl
  | succ n ih =>
    rw [after, ih]
    exact Nat.add_right_comm c.pos 1 n

/-- What `passWhile` passes. -/
def run (T : Tape γ) (p : γ → Bool) (room : Nat) (c : Cursor σ) : List γ :=
  ((T.chars.drop c.pos).takeWhile p).take room

theorem run_fits (p : γ → Bool) (room : Nat) (within : c.pos ≤ T.size) :
    c.pos + (T.run p room c).length ≤ T.size := by
  have taken := (List.takeWhile_prefix (l := T.chars.drop c.pos) p).length_le
  rw [List.length_drop] at taken
  simp only [run, List.length_take, size] at within ⊢
  omega

include fits

theorem ends_advance {Q : Unit → Cursor σ → Prop} (inside : c.pos < T.size) :
    Ends (T.advance note) c Q E ↔ Q () (T.after note c 1) := by
  rw [advance, ends_bind, ends_peek fits (Nat.le_of_lt inside), ends_bind, ends_modify,
    ends_bump fits (by exact inside)]
  rfl

theorem ends_advanceBy {n : Nat} {Q : Unit → Cursor σ → Prop} (inside : c.pos + n ≤ T.size) :
    Ends (T.advanceBy note n) c Q E ↔ Q () (T.after note c n) := by
  induction n generalizing c with
  | zero => rfl
  | succ n ih =>
    rw [advanceBy, ends_bind, ends_advance fits (by omega), ih (by rw [after_pos]; omega)]
    rfl

theorem ends_passWhile {p : γ → Bool} (stops : p T.mark = false) {n room : Nat}
    {Q : List γ → Cursor σ → Prop} (within : c.pos ≤ T.size) (enough : T.size < c.pos + n) :
    Ends (T.passWhile note p n room) c Q E ↔
      Q (T.run p room c) (T.after note c (T.run p room c).length) := by
  induction n generalizing c room Q with
  | zero => omega
  | succ n ih =>
    rw [passWhile, ends_bind, ends_peek fits within, Nat.add_zero]
    by_cases more : p (T.value c.pos) = true ∧ 0 < room
    · have inside : c.pos < T.size := by
        apply inside_of_value within
        intro last
        rw [last, stops] at more
        cases more.1
      have split : T.run p room c =
          T.value c.pos :: T.run p (room - 1) (T.after note c 1) := by
        obtain ⟨room, rfl⟩ := Nat.exists_eq_add_of_lt more.2
        simp [run, drop_inside inside, more.1, after_pos]
      rw [if_pos more, ends_bind, ends_advance fits inside, ends_bind,
        ih (by rw [after_pos]; omega) (by rw [after_pos]; omega), ends_pure, split]
      rfl
    · have stopped : T.run p room c = [] := by
        rcases Nat.lt_or_ge c.pos T.size with inside | outside
        · rw [run, drop_inside inside]
          by_cases holds : p (T.value c.pos) = true
          · have full : room = 0 := by
              by_contra some
              exact more ⟨holds, Nat.pos_of_ne_zero some⟩
            simp [full]
          · simp [holds]
        · have last : c.pos = T.size := Nat.le_antisymm within outside
          simp [run, last, drop_size]
      rw [if_neg more, ends_pure, stopped]
      rfl

end Tape

end Cursors
