import ClaudeC99.Front.Lexer

/-! What the lexer does with runs of characters. -/

namespace ClaudeC99.Front

open Preprocessor (Text isSpaceChar isIdentStart isIdentChar)

/-- The lexer after a run of characters in one line. -/
def Lexer.after (l : Lexer) (run t : Text) : Lexer :=
  { l with rest := t, col := l.col + run.length }

@[simp] theorem Lexer.after_rest (l : Lexer) (run t : Text) : (l.after run t).rest = t := rfl

theorem lexerAdvance_cons {l : Lexer} {c : Char} {t : Text} (start : l.rest = c :: t)
    (line : c ≠ '\n') : lexerAdvance l = l.after [c] t := by
  unfold lexerAdvance
  rw [start]
  split
  · rename_i newline
    cases newline
    exact absurd rfl line
  · rename_i cons
    cases cons
    rfl
  · rename_i nil
    cases nil

theorem lexerAdvance_rest (l : Lexer) : (lexerAdvance l).rest = l.rest.tail := by
  unfold lexerAdvance
  split <;> rename_i start <;> simp [start]

theorem skip_rest (l : Lexer) (n : Nat) : (l.skip n).rest = l.rest.drop n := by
  induction n generalizing l with
  | zero => rfl
  | succ n ih => rw [Lexer.skip, ih, lexerAdvance_rest, List.drop_tail]

theorem skip_run {l : Lexer} (run : Text) {t : Text} (start : l.rest = run ++ t) (line : '\n' ∉ run) :
    l.skip run.length = l.after run t := by
  induction run generalizing l with
  | nil =>
    cases l
    cases start
    simp [Lexer.skip, Lexer.after]
  | cons c run ih =>
    have first := lexerAdvance_cons start (by
      rintro rfl
      simp at line)
    rw [List.length_cons, Lexer.skip, first, ih rfl (by simp_all)]
    simp only [Lexer.after, List.length_cons, List.length_nil, Lexer.mk.injEq, true_and, and_true]
    omega

theorem copyWhile_run {l : Lexer} {p : Char → Bool} {run t : Text} {room : Nat}
    (start : l.rest = run ++ t) (all : ∀ c ∈ run, p c) (stop : ∀ c ∈ t.head?, p c = false)
    (fits : run.length ≤ room) (line : '\n' ∉ run) :
    l.copyWhile p room = (run, l.after run t) := by
  have taken : l.rest.takeWhile p = run := by
    rw [start, List.takeWhile_append_of_pos all]
    cases t with
    | nil => simp
    | cons c t => simp [stop c rfl]
  simp only [Lexer.copyWhile, taken, List.take_of_length_le fits, skip_run run start line]

theorem after_after (l : Lexer) (run t run' t' : Text) :
    (l.after run t).after run' t' = l.after (run ++ run') t' := by
  simp only [Lexer.after, List.length_append, Lexer.mk.injEq, true_and, and_true]
  omega

/-- A run that is longer than the buffer is cut off. -/
theorem copyWhile_cut {l : Lexer} {p : Char → Bool} {run t : Text} {room : Nat}
    (start : l.rest = run ++ t) (all : ∀ c ∈ run, p c) (full : room ≤ run.length)
    (line : '\n' ∉ run) :
    l.copyWhile p room = (run.take room, l.after (run.take room) (run.drop room ++ t)) := by
  have taken : (l.rest.takeWhile p).take room = run.take room := by
    rw [start, List.takeWhile_append_of_pos all, List.take_append_of_le_length full]
  have split : l.rest = run.take room ++ (run.drop room ++ t) := by
    rw [start, ← List.append_assoc, List.take_append_drop]
  simp only [Lexer.copyWhile, taken]
  rw [skip_run _ split fun mem => line (List.mem_of_mem_take mem)]

/-- A character that starts a token. -/
def startsToken (c : Char) : Bool := c != '\x01' && !isSpaceChar c

theorem skipWhitespace_token {l : Lexer} {c : Char} {t : Text} (start : l.rest = c :: t)
    (token : startsToken c) : lexerSkipWhitespace l = l := by
  simp only [startsToken, Bool.and_eq_true, bne_iff_ne, Bool.not_eq_true'] at token
  simp [lexerSkipWhitespace, start, lexerSkipWhitespaceLoop, token]

theorem skipWhitespace_blank {l : Lexer} {c : Char} {t : Text} (start : l.rest = ' ' :: c :: t)
    (token : startsToken c) : lexerSkipWhitespace l = l.after [' '] (c :: t) := by
  have advance := lexerAdvance_cons start (by decide)
  have blank : isSpaceChar ' ' = true := rfl
  simp only [startsToken, Bool.and_eq_true, bne_iff_ne, Bool.not_eq_true'] at token
  simp [lexerSkipWhitespace, start, lexerSkipWhitespaceLoop, blank, advance, token]

theorem skipWhitespace_nil {l : Lexer} (start : l.rest = []) : lexerSkipWhitespace l = l := by
  simp [lexerSkipWhitespace, start, lexerSkipWhitespaceLoop]

/-- A blank before a token does not change the token but its column. -/
theorem nextToken_blank {l : Lexer} {c : Char} {t : Text} (start : l.rest = ' ' :: c :: t)
    (token : startsToken c) : lexerNextToken l = lexerNextToken (l.after [' '] (c :: t)) := by
  have same := skipWhitespace_token (l := l.after [' '] (c :: t)) rfl token
  unfold lexerNextToken
  rw [skipWhitespace_blank start token, same]

theorem nextToken_eof {l : Lexer} (start : l.rest = []) :
    lexerNextToken l = .ok ({ type := .eof, position := l.position }, l) := by
  unfold lexerNextToken
  rw [skipWhitespace_nil start]
  simp [start]

theorem nextToken_punctuator {l : Lexer} {c : Char} {t : Text} {type : TokenType} {value : Text}
    (start : l.rest = c :: t) (token : startsToken c)
    (noFloat : ¬ (c = '.' ∧ t.head?.any Char.isDigit)) (known : punctuator (c :: t) = some (type, value)) :
    lexerNextToken l = .ok ({ type, value, position := l.position }, l.skip value.length) := by
  unfold lexerNextToken
  rw [skipWhitespace_token start token]
  simp only [start, noFloat, if_false, known]

theorem digit_cases {c : Char} (digit : c.isDigit) :
    c = '0' ∨ c = '1' ∨ c = '2' ∨ c = '3' ∨ c = '4' ∨ c = '5' ∨ c = '6' ∨ c = '7' ∨ c = '8' ∨
      c = '9' := by
  have range : 48 ≤ c.toNat ∧ c.toNat ≤ 57 := by
    simpa [Char.isDigit, UInt32.le_iff_toNat_le] using digit
  have same : c = Char.ofNat c.toNat := (Char.ofNat_toNat c).symm
  obtain h | h | h | h | h | h | h | h | h | h : c.toNat = 48 ∨ c.toNat = 49 ∨ c.toNat = 50 ∨
      c.toNat = 51 ∨ c.toNat = 52 ∨ c.toNat = 53 ∨ c.toNat = 54 ∨ c.toNat = 55 ∨ c.toNat = 56 ∨
      c.toNat = 57 := by omega
  all_goals
    rw [h] at same
    subst same
    decide

theorem copyExponent_none {l : Lexer} (buf : Text)
    (plain : ∀ c ∈ l.rest.head?, c ≠ 'e' ∧ c ≠ 'E') : copyExponent buf l = none := by
  unfold copyExponent
  cases rest : l.rest with
  | nil => rfl
  | cons c t => exact if_neg (not_or.mpr (plain c (by simp [rest])))

theorem floatContinuation_none {l : Lexer} (buf : Text)
    (integer : ∀ c ∈ l.rest.head?, c ≠ '.' ∧ c ≠ 'e' ∧ c ≠ 'E') :
    floatContinuation buf l = none := by
  have noExponent := copyExponent_none buf fun c head => (integer c head).2
  unfold floatContinuation
  cases rest : l.rest with
  | nil => exact noExponent
  | cons c t =>
    have noPoint := (integer c (by simp [rest])).1
    split
    · exact noExponent
    · rename_i point
      cases point
      exact absurd rfl noPoint
    · exact noExponent

theorem punctuator_digit {c : Char} (digit : c.isDigit) (t : Text) :
    punctuator (c :: t) = none := by
  rcases digit_cases digit with rfl | rfl | rfl | rfl | rfl | rfl | rfl | rfl | rfl | rfl
  all_goals rfl

theorem nextToken_number {l : Lexer} {c : Char} {t : Text} (start : l.rest = c :: t)
    (digit : c.isDigit) : lexerNextToken l = lexNumber l := by
  rcases digit_cases digit with rfl | rfl | rfl | rfl | rfl | rfl | rfl | rfl | rfl | rfl
  all_goals
    unfold lexerNextToken
    rw [skipWhitespace_token start rfl]
    simp [start, punctuator_digit]

/-- A numeric literal ends as a floating or as an integer one. -/
theorem lexNumber_cases {l l' : Lexer} {t : Token} (read : lexNumber l = .ok (t, l')) :
    (∃ buf l₁, finishFloat buf l₁ l.position = (t, l')) ∨
      ∃ buf value octal l₁, finishInteger buf value octal l₁ l.position = .ok (t, l') := by
  unfold lexNumber at read
  dsimp only at read
  split at read
  · split at read
    · split at read
      · cases read
      · exact .inr ⟨_, _, _, _, read⟩
    split at read
    · split at read
      · cases read
      · exact .inr ⟨_, _, _, _, read⟩
    split at read
    · exact .inl ⟨_, _, Except.ok.inj read⟩
    · exact .inr ⟨_, _, _, _, read⟩
  split at read
  · exact .inl ⟨_, _, Except.ok.inj read⟩
  · exact .inr ⟨_, _, _, _, read⟩

end ClaudeC99.Front
