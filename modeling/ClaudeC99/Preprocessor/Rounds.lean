import ClaudeC99.Preprocessor.Source

/-! Rounds of the loop over a stretch of text, whatever follows it. -/

namespace ClaudeC99.Preprocessor

namespace Run

variable {α β γ : Type}

theorem logged_logged (l l' : List Expansion) (m : Run α) :
    logged l (logged l' m) = logged (l ++ l') m := by
  cases m with
  | none => rfl
  | some r => simp [logged, List.append_assoc]

@[simp] theorem logged_nil (m : Run α) : logged [] m = m := by
  cases m <;> rfl

@[simp] theorem returns_andThen (a : α) (k : α → Run β) : (returns a).andThen k = k a := by
  simp [returns, andThen]

@[simp] theorem exits_andThen (message : String) (k : α → Run β) :
    (exits message).andThen k = exits message := rfl

@[simp] theorem none_andThen (k : α → Run β) : andThen (none : Run α) k = none := rfl

theorem ok_andThen (l : List Expansion) (a : α) (k : α → Run β) :
    andThen (some (l, .ok a)) k = logged l (k a) := rfl

theorem logged_andThen (l : List Expansion) (m : Run α) (k : α → Run β) :
    (logged l m).andThen k = logged l (m.andThen k) := by
  cases m with
  | none => rfl
  | some r =>
    obtain ⟨l', r⟩ := r
    cases r with
    | error message => rfl
    | ok a => exact (logged_logged l l' (k a)).symm

theorem andThen_assoc (m : Run α) (k : α → Run β) (f : β → Run γ) :
    (m.andThen k).andThen f = m.andThen fun a => (k a).andThen f := by
  cases m with
  | none => rfl
  | some r =>
    obtain ⟨l, r⟩ := r
    cases r with
    | error message => rfl
    | ok a => exact logged_andThen l (k a) f

@[simp] theorem andThen_returns (m : Run α) : m.andThen returns = m := by
  cases m with
  | none => rfl
  | some r =>
    obtain ⟨l, r⟩ := r
    cases r with
    | error message => rfl
    | ok a => simp [andThen, returns, logged]

/-- The value of a run that returns. -/
def Returns (m : Run α) (a : α) : Prop := ∃ log, m = some (log, .ok a)

theorem andThen_congr {m : Run α} {k f : α → Run β} (same : ∀ a, m.Returns a → k a = f a) :
    m.andThen k = m.andThen f := by
  cases m with
  | none => rfl
  | some r =>
    obtain ⟨l, r⟩ := r
    cases r with
    | error message => rfl
    | ok a => exact congrArg (logged l) (same a ⟨l, rfl⟩)

theorem returns_iff {a b : α} : (returns a).Returns b ↔ a = b := by
  simp [Returns, returns]

theorem not_exits_returns {message : String} {a : α} : ¬ (exits message : Run α).Returns a := by
  simp [Returns, exits]

theorem andThen_returns_iff {m : Run α} {k : α → Run β} {b : β} :
    (m.andThen k).Returns b ↔ ∃ a, m.Returns a ∧ (k a).Returns b := by
  cases m with
  | none => simp [Returns, andThen]
  | some r =>
    obtain ⟨l, r⟩ := r
    cases r with
    | error message => simp [Returns, andThen]
    | ok a =>
      cases h : k a with
      | none => simp [Returns, andThen, logged, h]
      | some r' =>
        constructor
        · rintro ⟨log, same⟩
          simp only [andThen, h, logged, Option.some.injEq, Prod.mk.injEq] at same
          exact ⟨a, ⟨l, rfl⟩, r'.1, by rw [h, ← same.2]⟩
        · rintro ⟨a', ⟨_, same⟩, log, last⟩
          cases same
          rw [h] at last
          cases last
          exact ⟨l ++ log, by simp [andThen, h, logged]⟩

/-- Output in front of what follows. -/
def after {σ : Type} (out : Text) (m : Run (Text × σ)) : Run (Text × σ) :=
  m.andThen fun q => returns (out ++ q.1, q.2)

@[simp] theorem after_nil {σ : Type} (m : Run (Text × σ)) : after [] m = m := by
  simp [after]

theorem after_after {σ : Type} (a b : Text) (m : Run (Text × σ)) :
    after a (after b m) = after (a ++ b) m := by
  simp [after, andThen_assoc, List.append_assoc]

/-- The same output, and the state as `f` gives it. -/
def placed {σ τ : Type} (f : σ → τ) (m : Run (Text × σ)) : Run (Text × τ) :=
  m.andThen fun q => returns (q.1, f q.2)

@[simp] theorem returns_placed {σ τ : Type} (f : σ → τ) (p : Text × σ) :
    (returns p).placed f = returns (p.1, f p.2) := returns_andThen p _

theorem andThen_placed {σ τ : Type} (f : σ → τ) (m : Run α) (k : α → Run (Text × σ)) :
    (m.andThen k).placed f = m.andThen fun a => (k a).placed f := andThen_assoc m k _

theorem after_placed {σ τ : Type} (f : σ → τ) (out : Text) (m : Run (Text × σ)) :
    (after out m).placed f = after out (m.placed f) := by
  simp only [after, placed, andThen_assoc, returns_andThen]

theorem placed_placed {σ τ υ : Type} (f : σ → τ) (g : τ → υ) (m : Run (Text × σ)) :
    (m.placed f).placed g = m.placed fun st => g (f st) := by
  simp only [placed, andThen_assoc, returns_andThen]

end Run

/-- What a run that returns has put out. -/
def Run.output {σ : Type} : Run (Text × σ) → Option Text
  | some (_, .ok p) => some p.1
  | _ => none

/-- The state at the start of a file. -/
def fileStart (shared : Shared) : Source :=
  { toShared := shared
    rest := []
    lineHasContent := false
    currentLine := 1
    currentFileOverride := none
    emitting := true
    condStack := [] }

def noFiles : Files := ⟨fun _ => none, []⟩

def noReader : FileReader := fun _ shared => .returns ([], shared)

def noMacros : Shared := ⟨[], [], ⟨[], 0⟩⟩

def Source.before (st : Source) (rest : Text) : Source := { st with rest }

section Consumes

variable (files : Files) (preprocessFile : FileReader) (sourcePath : Text) (fuel : Nat)

theorem preprocessLoop_succ (n : Nat) (st : Source) :
    preprocessLoop files preprocessFile sourcePath fuel (n + 1) st =
      match st.rest with
      | [] => .returns ([], st)
      | c :: s =>
        (preprocessStep files preprocessFile sourcePath fuel st c s).andThen fun p =>
          .after p.1 (preprocessLoop files preprocessFile sourcePath fuel n p.2) := rfl

/-- Before any text, the loop reads `t` as `m` says and goes on behind it. -/
def Consumes (st : Source) (t : Text) (m : Run (Text × Source)) : Prop :=
  ∃ k ≤ t.length, ∀ n r,
    preprocessLoop files preprocessFile sourcePath fuel (n + k) { st with rest := t ++ r } =
      m.andThen fun p =>
        .after p.1 (preprocessLoop files preprocessFile sourcePath fuel n { p.2 with rest := r })

variable {files preprocessFile sourcePath fuel}

theorem consumes_nil (st : Source) :
    Consumes files preprocessFile sourcePath fuel st [] (.returns ([], st)) :=
  ⟨0, le_rfl, fun n r => by simp⟩

theorem Consumes.append {α : Type} {st : Source} {t u : Text} {m : Run α}
    {read : α → Text × Source} {next : α → Run (Text × Source)}
    (first : Consumes files preprocessFile sourcePath fuel st t
      (m.andThen fun a => .returns (read a)))
    (second : ∀ a, m.Returns a →
      Consumes files preprocessFile sourcePath fuel (read a).2 u (next a)) :
    Consumes files preprocessFile sourcePath fuel st (t ++ u)
      (m.andThen fun a => .after (read a).1 (next a)) := by
  obtain ⟨k, le, reads⟩ := first
  by_cases returned : ∃ a, m.Returns a
  · obtain ⟨a, log, rfl⟩ := returned
    obtain ⟨j, le', reads'⟩ := second a ⟨log, rfl⟩
    refine ⟨j + k, ?_, fun n r => ?_⟩
    · rw [List.length_append]
      omega
    · rw [List.append_assoc, ← Nat.add_assoc, reads]
      simp only [Run.ok_andThen, Run.logged_andThen, Run.returns_andThen, reads', Run.after,
        Run.andThen_assoc, List.append_assoc]
  · refine ⟨k, by rw [List.length_append]; omega, fun n r => ?_⟩
    have never : ∀ f g : α → Run (Text × Source), m.andThen f = m.andThen g :=
      fun f g => Run.andThen_congr fun a gives => absurd ⟨a, gives⟩ returned
    rw [List.append_assoc, reads, Run.andThen_assoc, Run.andThen_assoc]
    exact never _ _

/-- Rounds to spare change nothing. -/
theorem Consumes.runs {st : Source} {t : Text} {m : Run (Text × Source)}
    (reads : Consumes files preprocessFile sourcePath fuel st t m)
    (whole : ∀ p, m.Returns p → p.2.rest = []) {n : Nat} (enough : t.length < n) :
    preprocessLoop files preprocessFile sourcePath fuel n { st with rest := t } = m := by
  obtain ⟨k, le, reads⟩ := reads
  obtain ⟨j, rfl⟩ : ∃ j, n = j + 1 + k := ⟨n - 1 - k, by omega⟩
  have all := reads (j + 1) []
  rw [List.append_nil] at all
  rw [all]
  calc m.andThen _ = m.andThen .returns := Run.andThen_congr fun p gives => by
        rw [preprocessLoop_succ]
        simp only [Run.after, Run.returns_andThen, List.append_nil]
        rw [← whole p gives]
    _ = m := Run.andThen_returns m

end Consumes

end ClaudeC99.Preprocessor
