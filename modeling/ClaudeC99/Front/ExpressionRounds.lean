import ClaudeC99.Front.Consumption

/-! The expression parser ends: as many rounds as there are tokens are enough. -/

namespace ClaudeC99.Expressions

open Front (TokenType FuncSig)

/-- An outcome that does not stem from used-up rounds. -/
def Answers {α : Type} (x : Except String α) : Prop := x ≠ .error outOfRounds

/-- The readers of type names and constant expressions end. -/
structure Context.Answering (c : Context) : Prop where
  typeName : ∀ s, Answers (c.parseTypeName s)
  constExpr : ∀ what s, Answers (c.evalConstExpr what s)

/-- The functions that are called answer wherever fewer than `m` tokens are left. -/
structure Settles (c : Context) (callees : Callees) (m : Nat) : Prop where
  sound : Sound c callees
  rounds : m ≤ callees.rounds
  expression : ∀ s, s.length < m → Answers (callees.expression s)
  assignment : ∀ s, s.length < m → Answers (callees.assignment s)
  conditional : ∀ s, s.length < m → Answers (callees.conditional s)
  cast : ∀ s, s.length < m → Answers (callees.cast s)
  unary : ∀ s, s.length < m → Answers (callees.unary s)
  initializer : ∀ s, s.length < m → Answers (callees.initializer s)

section answers

variable {α β : Type} {c : Context} {s : Tokens}

theorem answers_ok {a : α} : Answers (.ok a) := by
  intro same
  cases same

theorem Answers.bind {x : Except String α} {f : α → Except String β} (h : Answers x)
    (rest : ∀ a, x = .ok a → Answers (f a)) : Answers (x >>= f) := by
  cases x with
  | error text =>
    intro same
    cases same
    exact h rfl
  | ok a => exact rest a rfl

/-- The rest of a computation behind what has been read. -/
theorem Answers.read {x : Except String (α × Tokens)} {f : α × Tokens → Except String β}
    (h : Answers x) (rest : ∀ a s, x = .ok (a, s) → Answers (f (a, s))) : Answers (x >>= f) :=
  h.bind fun r done => rest r.1 r.2 done

theorem colon_append {a b : String} (colon : ':' ∈ a.toList) : ':' ∈ (a ++ b).toList := by
  rw [String.toList_append]
  exact List.mem_append_left _ colon

/-- Every message of the parser has a colon. -/
theorem answers_error {text : String} (colon : ':' ∈ text.toList) :
    Answers (c.error s text : Except String α) := by
  intro same
  have reported : message (c.current s) text = outOfRounds := Except.error.inj same
  have inside : ':' ∈ (message (c.current s) text).toList := by
    unfold message
    split
    · split
      · rw [String.toList_append]
        exact List.mem_append_right _ colon
      · exact colon
    · exact colon
  rw [reported] at inside
  exact absurd inside (by decide)

theorem answers_expect {t : TokenType} : Answers (c.expect t s) := by
  unfold Context.expect
  split
  · exact answers_ok
  · exact answers_error (colon_append (colon_append (colon_append (colon_append
      (colon_append (colon_append (by decide)))))))

theorem answers_checkArity {sig : FuncSig} {name : String} {count : Nat} :
    Answers (checkArity c sig name count s) := by
  unfold checkArity
  split
  · exact answers_ok
  · split
    · split
      · exact answers_error (colon_append (colon_append (colon_append (colon_append
          (colon_append (by decide))))))
      · exact answers_ok
    · split
      · exact answers_error (colon_append (colon_append (colon_append (colon_append
          (colon_append (by decide))))))
      · exact answers_ok

end answers

section settles

variable {c : Context} {self : Callees} {m : Nat} {s : Tokens}

theorem tail_lt (short : s.length < m) : s.tail.length < m := by
  rw [List.length_tail]
  omega

theorem tail_lt_of_type {t : TokenType} (short : s.length ≤ m) (found : c.type s = t)
    (noEnd : t ≠ .eof) : s.tail.length < m := by
  have pos := List.length_pos_iff.mpr (ne_nil_of_type found noEnd)
  rw [List.length_tail]
  omega

theorem Takes.lt {s s' : Tokens} (h : Takes s s') (short : s.length ≤ m) : s'.length < m :=
  h.length.trans_le short

theorem suffix_lt {s s' : Tokens} (h : s' <:+ s) (short : s.length < m) : s'.length < m :=
  h.length_le.trans_lt short

variable (forward : c.Forward) (answering : c.Answering) (settles : Settles c self m)

include forward settles

theorem argument_lt {e : Expr} {s₁ : Tokens} (read : self.assignment s = .ok (e, s₁))
    (short : s.length < m) : s₁.length < m :=
  ((settles.sound.assignment read).takes forward).lt short.le

theorem inner_lt {e : Expr} {s₁ : Tokens} (read : self.expression s = .ok (e, s₁))
    (short : s.length < m) : s₁.length < m :=
  ((settles.sound.expression read).takes forward).lt short.le

theorem answers_argumentsLoop {n : Nat} {args : List Expr} (enough : s.length < n)
    (short : s.length < m) : Answers (argumentsLoop c self n args s) := by
  induction n generalizing s args with
  | zero => exact absurd enough (Nat.not_lt_zero _)
  | succ n ih =>
    unfold argumentsLoop
    split
    · refine (settles.assignment _ (tail_lt short)).read fun e s₁ read => ?_
      have fewer := ((settles.sound.assignment read).takes forward).length
      rw [List.length_tail] at fewer
      exact ih (by omega) (by omega)
    · exact answers_ok

theorem answers_parseArguments (short : s.length < m) : Answers (parseArguments c self s) := by
  unfold parseArguments
  split
  · exact answers_ok
  · refine (settles.assignment _ short).read fun e s₁ read => ?_
    have fewer := argument_lt forward settles read short
    refine (answers_argumentsLoop forward settles (fewer.trans_le settles.rounds) fewer).read
      fun args s₂ _ => ?_
    exact answers_expect.read fun _ _ _ => answers_ok

theorem answers_parseName (short : s.tail.length < m) : Answers (parseName c self s) := by
  unfold parseName
  split
  · dsimp only
    split
    · refine (answers_parseArguments forward settles (tail_lt short)).read fun args s₁ _ => ?_
      exact answers_checkArity.bind fun _ _ => answers_ok
    · exact (answers_parseArguments forward settles (tail_lt short)).read fun _ _ _ => answers_ok
  · exact answers_ok

theorem answers_parseVaStart (short : s.tail.length < m) : Answers (parseVaStart c self s) := by
  unfold parseVaStart
  refine answers_expect.read fun _ s₁ read => ?_
  obtain ⟨-, -, rfl⟩ := expect_iff.mp read
  dsimp only
  split
  · exact answers_error (by decide)
  · refine (settles.assignment _ (tail_lt short)).read fun ap s₂ first => ?_
    dsimp only
    split
    · exact answers_error (by decide)
    · refine (settles.assignment _ (tail_lt
        (argument_lt forward settles first (tail_lt short)))).read fun last s₃ _ => ?_
      exact answers_expect.read fun _ _ _ => answers_ok

omit forward in
theorem answers_parseVaEnd (short : s.tail.length < m) : Answers (parseVaEnd c self s) := by
  unfold parseVaEnd
  refine answers_expect.read fun _ s₁ read => ?_
  obtain ⟨-, -, rfl⟩ := expect_iff.mp read
  refine (settles.assignment _ (tail_lt short)).read fun ap s₂ _ => ?_
  exact answers_expect.read fun _ _ _ => answers_ok

theorem answers_parseVaCopy (short : s.tail.length < m) : Answers (parseVaCopy c self s) := by
  unfold parseVaCopy
  refine answers_expect.read fun _ s₁ read => ?_
  obtain ⟨-, -, rfl⟩ := expect_iff.mp read
  refine (settles.assignment _ (tail_lt short)).read fun dst s₂ first => ?_
  refine answers_expect.read fun _ s₃ read => ?_
  obtain ⟨-, -, rfl⟩ := expect_iff.mp read
  refine (settles.assignment _ (tail_lt
    (argument_lt forward settles first (tail_lt short)))).read fun src s₄ _ => ?_
  exact answers_expect.read fun _ _ _ => answers_ok

include answering

omit forward in
theorem answers_parseVaArg (short : s.tail.length < m) : Answers (parseVaArg c self s) := by
  unfold parseVaArg
  refine answers_expect.read fun _ s₁ read => ?_
  obtain ⟨-, -, rfl⟩ := expect_iff.mp read
  refine (settles.assignment _ (tail_lt short)).read fun ap s₂ _ => ?_
  refine answers_expect.read fun _ s₃ _ => ?_
  refine (answering.typeName _).read fun t s₄ _ => ?_
  exact answers_expect.read fun _ _ _ => answers_ok

theorem answers_parseIdentifier (short : s.tail.length < m) :
    Answers (parseIdentifier c self s) := by
  unfold parseIdentifier
  dsimp only
  split
  · split
    · exact answers_error (by decide)
    · exact answers_ok
  · split
    · exact answers_parseVaStart forward settles short
    · split
      · exact answers_parseVaEnd settles short
      · split
        · exact answers_parseVaCopy forward settles short
        · split
          · exact answers_parseVaArg answering settles short
          · split
            · exact answers_ok
            · exact answers_parseName forward settles short

theorem answers_parsePrimary (short : s.length ≤ m) : Answers (parsePrimary c self s) := by
  unfold parsePrimary
  dsimp only
  split
  next => exact answers_ok
  next => exact answers_ok
  next => exact answers_ok
  next => exact answers_ok
  next => exact answers_ok
  next token =>
    exact answers_parseIdentifier forward answering settles
      (tail_lt_of_type short (c := c) token (by decide))
  next opened =>
    refine (settles.expression _ (tail_lt_of_type short (c := c) opened (by decide))).read
      fun e s₁ _ => ?_
    exact answers_expect.read fun _ _ _ => answers_ok
  next => exact answers_error (colon_append (colon_append (by decide)))

omit answering in
theorem answers_parsePostfixSuffixes {n : Nat} {base : Expr} (enough : s.length < n)
    (short : s.length < m) : Answers (parsePostfixSuffixes c self n base s) := by
  induction n generalizing s base with
  | zero => exact absurd enough (Nat.not_lt_zero _)
  | succ n ih =>
    have tail := s.length_tail
    unfold parsePostfixSuffixes
    split
    next opened =>
      refine (answers_parseArguments forward settles (tail_lt short)).read fun args s₁ read => ?_
      have fewer := ((parseArguments_sound settles.sound read).takes forward).length
      exact ih (by omega) (by omega)
    next opened =>
      split
      · refine (settles.expression _ (tail_lt short)).read fun index s₁ read => ?_
        have fewer := ((settles.sound.expression read).takes forward).length
        refine answers_expect.read fun _ s₂ closed => ?_
        obtain ⟨-, -, rfl⟩ := expect_iff.mp closed
        have tail₁ := s₁.length_tail
        exact ih (by omega) (by omega)
      · exact answers_error (by decide)
    next dot =>
      refine answers_expect.read fun _ s₁ field => ?_
      obtain ⟨named, -, rfl⟩ := expect_iff.mp field
      have fewer := tail_lt_of_type le_rfl named (by decide)
      exact ih (by omega) (by omega)
    next arrow =>
      refine answers_expect.read fun _ s₁ field => ?_
      obtain ⟨named, -, rfl⟩ := expect_iff.mp field
      have fewer := tail_lt_of_type le_rfl named (by decide)
      exact ih (by omega) (by omega)
    next op =>
      have fewer := tail_lt_of_type le_rfl op (by decide)
      exact ih (by omega) (by omega)
    next op =>
      have fewer := tail_lt_of_type le_rfl op (by decide)
      exact ih (by omega) (by omega)
    next => exact answers_ok

omit forward answering in
theorem answers_buildCompoundLiteral {t : CType} (short : s.length < m) :
    Answers (buildCompoundLiteral c self t s) := by
  unfold buildCompoundLiteral
  split
  next => exact answers_error (by decide)
  next => exact answers_error (by decide)
  next => exact (settles.initializer _ short).read fun _ _ _ => answers_ok
  next => exact (settles.initializer _ short).read fun _ _ _ => answers_ok
  next => exact (settles.initializer _ short).read fun _ _ _ => answers_ok
  next =>
    refine (settles.assignment _ (tail_lt short)).read fun init s₁ _ => ?_
    exact answers_expect.read fun _ _ _ => answers_ok

omit forward settles in
theorem answers_compoundLiteralAhead : Answers (compoundLiteralAhead c s) := by
  unfold compoundLiteralAhead
  split
  · refine (answering.typeName _).read fun t s₁ _ => ?_
    dsimp only
    split <;> exact answers_ok
  · exact answers_ok

omit answering in
/-- From the brace of a compound literal on. -/
theorem answers_literal {t : CType} (short : s.length < m) (opened : c.type s = .lbrace) :
    Answers (do
      let (base, ts) ← buildCompoundLiteral c self t s
      parsePostfixSuffixes c self self.rounds base ts) := by
  refine (answers_buildCompoundLiteral settles short).read fun base s₁ read => ?_
  have fewer := ((buildCompoundLiteral_sound settles.sound opened read).takes forward).lt short.le
  exact answers_parsePostfixSuffixes forward settles (fewer.trans_le settles.rounds) fewer

theorem answers_parsePostfix (short : s.length ≤ m) : Answers (parsePostfix c self s) := by
  unfold parsePostfix
  refine (answers_compoundLiteralAhead answering).bind fun found ahead => ?_
  cases found with
  | none =>
    refine (answers_parsePrimary forward answering settles short).read fun base s₁ read => ?_
    have fewer := ((parsePrimary_sound settles.sound read).takes forward).lt short
    exact answers_parsePostfixSuffixes forward settles (fewer.trans_le settles.rounds) fewer
  | some found =>
    obtain ⟨t, s₁⟩ := found
    obtain ⟨castAhead, s₂, type, -, opened, rfl⟩ := compoundLiteralAhead_some ahead
    have inside := tail_lt_of_type short castAhead.1 (by decide)
    exact answers_literal forward settles
      (tail_lt (suffix_lt (forward.typeName type) inside)) opened

omit forward in
theorem answers_parseSizeof (short : s.tail.length < m) : Answers (parseSizeof c self s) := by
  unfold parseSizeof
  split
  · exact (settles.unary _ short).read fun _ _ _ => answers_ok
  · dsimp only
    split
    · refine (answering.typeName _).read fun t s₁ _ => ?_
      dsimp only
      split
      · exact answers_error (by decide)
      · split
        · exact answers_error (by decide)
        · exact answers_expect.read fun _ _ _ => answers_ok
    · split
      · exact answers_error (by decide)
      · refine (settles.expression _ (tail_lt short)).read fun o s₁ _ => ?_
        exact answers_expect.read fun _ _ _ => answers_ok

theorem answers_parseUnary (short : s.length ≤ m) : Answers (parseUnary c self s) := by
  unfold parseUnary
  split
  next op =>
    exact answers_parseSizeof answering settles (tail_lt_of_type short op (by decide))
  next =>
    split
    next op =>
      refine (settles.unary _ (tail_lt_of_type short op (by decide))).read fun o s₁ _ => ?_
      dsimp only
      split
      · exact answers_ok
      · exact answers_error (by decide)
    next =>
      split
      next node op =>
        have inside := (Takes.start (isStart_prefixNode op)).lt short
        exact (settles.unary _ inside).read fun _ _ _ => answers_ok
      next => exact answers_parsePostfix forward answering settles short

theorem answers_parseCast (short : s.length ≤ m) : Answers (parseCast c self s) := by
  unfold parseCast
  split
  next ahead =>
    have inside := tail_lt_of_type short ahead.1 (by decide)
    refine (answering.typeName _).read fun t s₁ type => ?_
    refine answers_expect.read fun _ s₂ closed => ?_
    obtain ⟨-, -, rfl⟩ := expect_iff.mp closed
    have behind := tail_lt (suffix_lt (forward.typeName type) inside)
    dsimp only
    split
    next opened => exact answers_literal forward settles behind opened
    next =>
      split
      · exact answers_error (by decide)
      · exact (settles.cast _ behind).read fun _ _ _ => answers_ok
  next => exact answers_parseUnary forward answering settles short

omit answering in
theorem answers_binaryLoop {k n : Nat} {left : Expr}
    (operand : ∀ s, s.length < m → Answers (levelReader c self k s)) (enough : s.length < n)
    (short : s.length < m) :
    Answers (binaryLoop c (levelOperator k) (levelReader c self k) n left s) := by
  induction n generalizing s left with
  | zero => exact absurd enough (Nat.not_lt_zero _)
  | succ n ih =>
    unfold binaryLoop
    split
    · exact answers_ok
    · refine (operand _ (tail_lt short)).read fun right s₁ read => ?_
      have fewer := ((levelReader_sound settles.sound read).takes forward).length
      rw [List.length_tail] at fewer
      exact ih (by omega) (by omega)

theorem answers_levelReader {k : Nat} (short : s.length ≤ m) :
    Answers (levelReader c self k s) := by
  induction k generalizing s with
  | zero => exact answers_parseCast forward answering settles short
  | succ k ih =>
    rw [levelReader]
    refine (ih short).read fun left s₁ read => ?_
    have fewer := ((levelReader_sound settles.sound read).takes forward).lt short
    exact answers_binaryLoop forward settles (fun s inside => ih inside.le)
      (fewer.trans_le settles.rounds) fewer

theorem answers_parseConditional (short : s.length ≤ m) : Answers (parseConditional c self s) := by
  unfold parseConditional
  rw [parseLogicalOr_eq]
  refine (answers_levelReader forward answering settles short).read fun cond s₁ read => ?_
  have fewer := ((levelReader_sound settles.sound read).takes forward).lt short
  dsimp only
  split
  · exact answers_ok
  · split
    · exact answers_error (by decide)
    · refine (settles.expression _ (tail_lt fewer)).read fun e₂ s₂ first => ?_
      dsimp only
      split
      · exact answers_error (by decide)
      · have rest := tail_lt (inner_lt forward settles first (tail_lt fewer))
        exact (settles.conditional _ rest).read fun _ _ _ => answers_ok

omit forward answering in
theorem answers_parseDesignated (short : s.length < m) : Answers (parseDesignated c self s) := by
  unfold parseDesignated
  split
  · exact answers_error (by decide)
  · refine answers_expect.read fun _ s₁ assign => ?_
    obtain ⟨-, -, rfl⟩ := expect_iff.mp assign
    exact settles.initializer _ (tail_lt short)

theorem answers_parseInitializerElement (short : s.length < m) :
    Answers (parseInitializerElement c self s) := by
  unfold parseInitializerElement
  split
  · refine answers_expect.read fun _ s₁ field => ?_
    obtain ⟨-, -, rfl⟩ := expect_iff.mp field
    exact (answers_parseDesignated settles (tail_lt (tail_lt short))).read
      fun _ _ _ => answers_ok
  · split
    · refine (answering.constExpr _ _).read fun i s₁ index => ?_
      dsimp only
      split
      · exact answers_error (by decide)
      · refine answers_expect.read fun _ s₂ closed => ?_
        obtain ⟨-, -, rfl⟩ := expect_iff.mp closed
        have behind := tail_lt (suffix_lt (forward.constExpr index) (tail_lt short))
        exact (answers_parseDesignated settles behind).read
          fun _ _ _ => answers_ok
    · exact settles.initializer _ short

theorem answers_elementsLoop {n : Nat} {es : List Expr} (enough : s.length < n)
    (short : s.length < m) : Answers (elementsLoop c self n es s) := by
  induction n generalizing s es with
  | zero => exact absurd enough (Nat.not_lt_zero _)
  | succ n ih =>
    unfold elementsLoop
    split
    · split
      · exact answers_ok
      · refine (answers_parseInitializerElement forward answering settles (tail_lt short)).read
          fun e s₁ read => ?_
        have fewer := ((parseInitializerElement_sound settles.sound read).takes forward).length
        rw [List.length_tail] at fewer
        exact ih (by omega) (by omega)
    · exact answers_ok

theorem answers_parseAssignmentExpression (short : s.length ≤ m) :
    Answers (parseAssignmentExpression c self s) := by
  unfold parseAssignmentExpression
  split
  next named =>
    have inside := tail_lt (tail_lt_of_type short named.1 (by decide))
    exact (settles.assignment _ inside).read fun _ _ _ => answers_ok
  next =>
    refine (answers_parseConditional forward answering settles short).read fun lhs s₁ read => ?_
    have fewer := ((parseConditional_sound settles.sound read).takes forward).lt short
    dsimp only
    split
    · split
      · exact (settles.assignment _ (tail_lt fewer)).read fun _ _ _ => answers_ok
      · exact answers_error (by decide)
    · exact answers_ok

theorem answers_parseInitializer (short : s.length ≤ m) : Answers (parseInitializer c self s) := by
  unfold parseInitializer
  split
  next => exact answers_parseAssignmentExpression forward answering settles short
  next opened =>
    have inside := tail_lt_of_type short (not_not.mp opened) (by decide)
    split
    · exact answers_ok
    · refine (answers_parseInitializerElement forward answering settles inside).read
        fun first s₁ read => ?_
      have fewer :=
        ((parseInitializerElement_sound settles.sound read).takes forward).lt inside.le
      refine (answers_elementsLoop forward answering settles (fewer.trans_le settles.rounds)
        fewer).read fun elements s₂ _ => ?_
      dsimp only
      split
      · exact answers_error (by decide)
      · exact answers_ok

theorem answers_commaLoop {n : Nat} {left : Expr} (enough : s.length < n) (short : s.length < m) :
    Answers (commaLoop c self n left s) := by
  induction n generalizing s left with
  | zero => exact absurd enough (Nat.not_lt_zero _)
  | succ n ih =>
    unfold commaLoop
    split
    · refine (answers_parseAssignmentExpression forward answering settles (tail_lt short).le).read
        fun right s₁ read => ?_
      have fewer := ((parseAssignmentExpression_sound settles.sound read).takes forward).length
      rw [List.length_tail] at fewer
      exact ih (by omega) (by omega)
    · exact answers_ok

theorem answers_parseExpression (short : s.length ≤ m) : Answers (parseExpression c self s) := by
  unfold parseExpression
  refine (answers_parseAssignmentExpression forward answering settles short).read
    fun left s₁ read => ?_
  have fewer := ((parseAssignmentExpression_sound settles.sound read).takes forward).lt short
  exact answers_commaLoop forward answering settles (fewer.trans_le settles.rounds) fewer

omit settles in
/-- With `n` rounds the parser answers on fewer than `n` tokens. -/
theorem settles_parsers (n : Nat) : Settles c (parsers c n) n := by
  induction n with
  | zero => constructor <;> simp [parsers_sound]
  | succ n ih =>
    exact
      { sound := parsers_sound (n + 1)
        rounds := le_rfl
        expression := fun s short =>
          answers_parseExpression forward answering ih (Nat.le_of_lt_succ short)
        assignment := fun s short =>
          answers_parseAssignmentExpression forward answering ih (Nat.le_of_lt_succ short)
        conditional := fun s short =>
          answers_parseConditional forward answering ih (Nat.le_of_lt_succ short)
        cast := fun s short => answers_parseCast forward answering ih (Nat.le_of_lt_succ short)
        unary := fun s short => answers_parseUnary forward answering ih (Nat.le_of_lt_succ short)
        initializer := fun s short =>
          answers_parseInitializer forward answering ih (Nat.le_of_lt_succ short) }

omit settles in
/-- The parser ends: in more rounds than there are tokens, it has read an expression or reported an
error of the source. -/
theorem expression_ends {n : Nat} (enough : s.length < n) :
    (parsers c n).expression s ≠ .error outOfRounds :=
  (settles_parsers forward answering n).expression s enough

end settles

theorem bare_answering : bare.Answering := by
  constructor
  · intro s
    simp [Answers, bare, outOfRounds]
  · intro what s
    simp [Answers, bare, outOfRounds]

theorem plain_ends : (parsers bare 7).expression plainSubscript ≠ .error outOfRounds :=
  expression_ends bare_forward bare_answering (by decide)

end ClaudeC99.Expressions
