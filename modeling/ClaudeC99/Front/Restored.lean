import ClaudeC99.Front.InBounds

/-! Every call of the lexer, from every position that the parser may restore. -/

namespace ClaudeC99.Positions

open Cursors
open Front (Token Position keywords keywordType punctuator)
open Preprocessor (Text isSpaceChar)

/-! ### The end of the source is the only end of the tokens -/

section Tokens

variable {l l' : Front.Lexer} {t : Token}

theorem punctuator_type {s v : Text} {type : Front.TokenType}
    (known : punctuator s = some (type, v)) : type ≠ .eof := by
  unfold punctuator at known
  split at known
  all_goals
    cases known
    try decide

theorem keywordType_ne (name : Text) : keywordType name ≠ .eof := by
  have all : ∀ k ∈ keywords, k.2 ≠ .eof := by decide
  rw [keywordType]
  cases found : keywords.find? (fun k => k.1.toList = name) with
  | none => decide
  | some k => exact all k (List.mem_of_find?_eq_some found)

theorem finishFloat_type (buf : Text) (l : Front.Lexer) (position : Position) :
    (Front.finishFloat buf l position).1.type ≠ .eof := by
  rw [Front.finishFloat]
  split
  · split
    · simp
    · simp
  · simp

theorem lexDotFloat_type (l : Front.Lexer) : (Front.lexDotFloat l).1.type ≠ .eof := by
  simp only [Front.lexDotFloat]
  exact finishFloat_type _ _ _

theorem finishInteger_type {buf : Text} {n : Nat} {isOctal : Bool} {position : Position}
    (read : Front.finishInteger buf n isOctal l position = .ok (t, l')) : t.type ≠ .eof := by
  simp only [Front.finishInteger] at read
  split at read
  · cases read
  split at read
  · cases read
  cases read
  simp

theorem nextToken_end (read : Front.lexerNextToken l = .ok (t, l')) (eof : t.type = .eof) :
    l'.rest = [] := by
  simp only [Front.lexerNextToken] at read
  split at read
  next start =>
    cases read
    exact start
  next c after start =>
  exfalso
  revert eof
  split at read
  · have type := lexDotFloat_type (Front.lexerSkipWhitespace l)
    rw [Except.ok.inj read] at type
    exact type
  split at read
  next known =>
    cases read
    exact punctuator_type known
  split at read
  · obtain ⟨_, _, done⟩ := StateExcept.bind_eq_ok.mp read
    cases done
    simp
  split at read
  · obtain ⟨_, _, done⟩ := StateExcept.bind_eq_ok.mp read
    cases done
    simp
  split at read
  · cases read
  split at read
  · rcases Front.lexNumber_cases read with ⟨buf, l₁, float⟩ | ⟨_, _, _, _, integer⟩
    · have type := finishFloat_type buf l₁ (Front.lexerSkipWhitespace l).position
      rw [float] at type
      exact type
    · exact finishInteger_type integer
  split at read
  · cases read
    exact keywordType_ne _
  · cases read
    simp

end Tokens

/-! ### Calls -/

variable {source : Source}

/-- The positions of the lexer in the runs of the parser, which calls it and goes back to positions
that it has saved. The line, the column and the file are not put back with them. -/
inductive Restorable (source : Source) : Nat → Prop where
  | start : Restorable source 0
  | call {p : Nat} {info : Position} {t : Token} {c' : Where} (before : Restorable source p)
      (returned : lexerNextToken source ⟨p, info⟩ = .ok (t, c')) : Restorable source c'.pos

/-- The call stops with a lexical error, or returns the end of the source at its NUL, or a token
behind which the lexer has moved on, but not past the NUL. -/
def InBounds (source : Source) (c : Where) : Prop :=
  Ends (lexerNextToken source) c
    (fun t c' => t.type = .eof ∧ c'.pos = size source ∨
      t.type ≠ .eof ∧ c.pos < c'.pos ∧ c'.pos ≤ size source)
    fun _ => True

/-- No call stops with a lexical error. -/
def NoLexicalError (source : Source) : Prop :=
  ∀ p, Restorable source p → ∀ info message,
    lexerNextToken source ⟨p, info⟩ ≠ .error (.report message)

theorem call_inBounds (short : size source ≤ intMax) {c : Where} (within : c.pos ≤ size source) :
    InBounds source c := by
  refine (lexerNextToken_ends short within).mono (fun {t c'} ended => ?_) fun _ => trivial
  obtain ⟨read, progress⟩ := ended
  by_cases eof : t.type = .eof
  · refine .inl ⟨eof, ?_⟩
    have nothing := congrArg List.length (nextToken_end read eof)
    rw [rest_length, List.length_nil] at nothing
    have last : c'.pos ≤ size source := by
      rcases progress with ⟨_, last⟩ | moved
      · exact Nat.le_of_eq last
      · exact moved.2
    omega
  · rcases progress with ⟨isEof, _⟩ | moved
    · exact absurd isEof eof
    · exact .inr ⟨eof, moved⟩

theorem restorable_within (short : size source ≤ intMax) {p : Nat}
    (restorable : Restorable source p) : p ≤ size source := by
  induction restorable with
  | start => exact Nat.zero_le _
  | @call p info t c' _ returned ih =>
    have ended := call_inBounds short (c := ⟨p, info⟩) ih
    rw [InBounds, Ends, returned] at ended
    rcases ended with ⟨_, last⟩ | ⟨_, moved⟩
    · exact Nat.le_of_eq last
    · exact moved.2

/-- A call from a position that is no `int` would read the source there. -/
theorem pos_le_of_inBounds {c : Where} (inBounds : InBounds source c) : c.pos ≤ intMax := by
  by_contra outside
  rw [InBounds, lexerNextToken, ends_bind, lexerSkipWhitespace, Tape.rounds,
    lexerSkipWhitespaceLoop, ends_bind] at inBounds
  exact Tape.not_ends_peek (T := source.tape) (Nat.lt_of_not_le outside) inBounds

/-- Where every call is in bounds and none reports an error, the calls get to the NUL. -/
theorem short_of_inBounds (all : ∀ p, Restorable source p → ∀ info, InBounds source ⟨p, info⟩)
    (noError : NoLexicalError source) {p : Nat} (restorable : Restorable source p) :
    size source ≤ intMax := by
  generalize left : size source - p = k
  induction k using Nat.strong_induction_on generalizing p with
  | _ k ih =>
    have inBounds := all p restorable ⟨1, 1, none⟩
    cases returned : lexerNextToken source ⟨p, ⟨1, 1, none⟩⟩ with
    | error stop =>
      exfalso
      rw [InBounds, Ends, returned] at inBounds
      cases stop with
      | report message => exact noError p restorable _ message returned
      | outside => exact inBounds
      | overflow => exact inBounds
      | unending => exact inBounds
    | ok result =>
      obtain ⟨t, c'⟩ := result
      have later := Restorable.call restorable returned
      rw [InBounds, Ends, returned] at inBounds
      rcases inBounds with ⟨_, last⟩ | ⟨_, moved, within⟩
      · rw [← last]
        exact pos_le_of_inBounds (all c'.pos later c'.info)
      · have moved : p < c'.pos := moved
        exact ih (size source - c'.pos) (by omega) later rfl

/-- In a source of `INT_MAX` characters at most every call is in bounds. In a longer one some call
is not, unless a lexical error stops the program before. -/
theorem calls_inBounds (source : Source) :
    (size source ≤ intMax → ∀ p, Restorable source p → ∀ info, InBounds source ⟨p, info⟩) ∧
      (NoLexicalError source → (∀ p, Restorable source p → ∀ info, InBounds source ⟨p, info⟩) →
        size source ≤ intMax) := by
  constructor
  · intro short p restorable info
    exact call_inBounds short (restorable_within short restorable)
  · intro noError all
    exact short_of_inBounds all noError .start

/-- A literal and an escape that end with the source. -/
def truncated : Source where
  text := ['"', '\\']
  noNul := by decide

theorem truncated_inBounds :
    ∀ p, Restorable truncated p → ∀ info, InBounds truncated ⟨p, info⟩ :=
  (calls_inBounds truncated).1 (by decide)

/-! ### A source of blanks -/

def blanks (n : Nat) : Source where
  text := List.replicate n ' '
  noNul := by
    intro member
    exact absurd (List.eq_of_mem_replicate member) (by decide)

theorem blanks_size (n : Nat) : size (blanks n) = n := List.length_replicate

theorem blanks_value {n i : Nat} (inside : i < n) : value (blanks n) i = ' ' := by
  have here : i < (blanks n).tape.size := by
    rw [← blanks_size n] at inside
    exact inside
  rw [value, Tape.value_inside here]
  exact List.getElem_replicate _

theorem blanks_overflow {n k : Nat} (long : intMax < n) {c : Where} (within : c.pos ≤ intMax)
    {E : String → Prop} {Q : Unit → Where → Prop} :
    ¬ Ends (lexerSkipWhitespaceLoop (blanks n) k) c Q E := by
  induction k generalizing c with
  | zero => exact id
  | succ k ih =>
    have inside : c.pos < n := Nat.lt_of_le_of_lt within long
    have here : c.pos + 0 ≤ (blanks n).tape.size := by
      rw [← blanks_size n] at inside
      exact Nat.le_of_lt inside
    have blank : (blanks n).tape.value (c.pos + 0) = ' ' := blanks_value inside
    rw [lexerSkipWhitespaceLoop, ends_bind, peek,
      Tape.ends_peek_low (T := (blanks n).tape) within here, blank, if_neg (by decide),
      if_pos (by decide), ends_bind, lexerAdvance, Tape.advance, ends_bind,
      Tape.ends_peek_low (T := (blanks n).tape) within here, ends_bind, ends_modify]
    rcases Nat.lt_or_eq_of_le within with low | last
    · rw [Tape.ends_bump_low (T := (blanks n).tape) (by exact low)]
      exact ih low
    · exact Tape.not_ends_bump (T := (blanks n).tape) (Nat.le_of_eq last.symm)

theorem blanks_not_inBounds {n : Nat} (long : intMax < n) (info : Position) :
    ¬ InBounds (blanks n) ⟨0, info⟩ := by
  intro inBounds
  rw [InBounds, lexerNextToken, ends_bind] at inBounds
  exact blanks_overflow long (Nat.zero_le _) inBounds

/-- The position of the lexer cannot pass `INT_MAX + 1` blanks. -/
theorem long_source_overflows :
    ∃ source : Source, Restorable source 0 ∧ ∀ info, ¬ InBounds source ⟨0, info⟩ :=
  ⟨blanks (2 ^ 31), .start, blanks_not_inBounds (by decide)⟩

end ClaudeC99.Positions
