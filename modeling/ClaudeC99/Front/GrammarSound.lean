import ClaudeC99.Front.ExpressionSpecs

/-! What the expression parser reads is in the grammar. -/

namespace ClaudeC99.Expressions

open Front (Token TokenType FuncSig ConstOperator parserFindFunction)
open StateExcept (bind_eq_ok)

/-- What the functions that are called read, the grammar has. -/
structure Sound (c : Context) (callees : Callees) : Prop where
  expression : ∀ {s e s'}, callees.expression s = .ok (e, s') → Derives c .expression [e] s s'
  assignment : ∀ {s e s'}, callees.assignment s = .ok (e, s') → Derives c .assignment [e] s s'
  conditional : ∀ {s e s'}, callees.conditional s = .ok (e, s') → Derives c .conditional [e] s s'
  cast : ∀ {s e s'}, callees.cast s = .ok (e, s') → Derives c (.operators 0) [e] s s'
  unary : ∀ {s e s'}, callees.unary s = .ok (e, s') → Derives c .unary [e] s s'
  initializer : ∀ {s e s'}, callees.initializer s = .ok (e, s') → Derives c .initializer [e] s s'
  braces : ∀ {s e s'}, c.type s = .lbrace → callees.initializer s = .ok (e, s') →
    Derives c .braces [e] s s'

section sound

variable {c : Context} {self : Callees} {s s₁ s' : Tokens} {e : Expr} {es es' : List Expr}

theorem argumentsLoop_sound (sound : Sound c self) {n : Nat} (before : Derives c .list es s s₁)
    (run : argumentsLoop c self n es s₁ = .ok (es', s')) : Derives c .list es' s s' := by
  induction n generalizing es s₁ with
  | zero => cases run
  | succ n ih =>
    unfold argumentsLoop at run
    split at run
    next comma =>
      simp only [bind_eq_ok, Prod.exists] at run
      obtain ⟨last, s₂, read, rest⟩ := run
      exact ih (.more before comma (sound.assignment read)) rest
    next =>
      cases run
      exact before

theorem parseArguments_sound (sound : Sound c self)
    (run : parseArguments c self s = .ok (es, s')) : Derives c .arguments es s s' := by
  obtain ⟨closed, rfl, rfl⟩ | ⟨-, first, s₁, s₂, read, rest, closed, rfl⟩ :=
    parseArguments_iff.mp run
  · exact .noArguments closed
  · exact .arguments (argumentsLoop_sound sound (.one (sound.assignment read)) rest) closed

theorem parseName_sound (sound : Sound c self) (token : c.IsName s)
    (run : parseName c self s = .ok (e, s')) : Derives c .primary [e] s s' := by
  obtain ⟨noCall, rfl, rfl⟩ | ⟨opened, args, read, rest⟩ := parseName_iff.mp run
  · exact .variable token noCall
  · have inner := parseArguments_sound sound read
    obtain ⟨sig, known, accepts, rfl⟩ | ⟨unknown, rfl⟩ := rest
    · exact .call token opened known inner accepts
    · exact .callVariable token opened unknown inner

theorem parseIdentifier_sound (sound : Sound c self) (token : c.type s = .identifier)
    (run : parseIdentifier c self s = .ok (e, s')) : Derives c .primary [e] s s' := by
  unfold parseIdentifier at run
  dsimp only at run
  by_cases func : (c.current s).value = "__func__".toList
  · rw [if_pos func] at run
    split at run
    next => cases run
    next inside =>
      cases run
      exact .func ⟨token, func⟩ inside
  rw [if_neg func] at run
  by_cases start : (c.current s).value = "__builtin_va_start".toList
  · rw [if_pos start, parseVaStart_iff] at run
    obtain ⟨ap, s₁, last, s₂, opened, variadic, first, comma, second, closed, rfl, rfl⟩ := run
    exact .vaStart ⟨token, start⟩ opened variadic (sound.assignment first) comma
      (sound.assignment second) closed
  rw [if_neg start] at run
  by_cases finish : (c.current s).value = "__builtin_va_end".toList
  · rw [if_pos finish, parseVaEnd_iff] at run
    obtain ⟨ap, s₁, opened, only, closed, rfl, rfl⟩ := run
    exact .vaEnd ⟨token, finish⟩ opened (sound.assignment only) closed
  rw [if_neg finish] at run
  by_cases copy : (c.current s).value = "__builtin_va_copy".toList
  · rw [if_pos copy, parseVaCopy_iff] at run
    obtain ⟨dst, s₁, src, s₂, opened, first, comma, second, closed, rfl, rfl⟩ := run
    exact .vaCopy ⟨token, copy⟩ opened (sound.assignment first) comma (sound.assignment second)
      closed
  rw [if_neg copy] at run
  by_cases arg : (c.current s).value = "__builtin_va_arg".toList
  · rw [if_pos arg, parseVaArg_iff] at run
    obtain ⟨ap, s₁, t, s₂, opened, first, comma, second, closed, rfl, rfl⟩ := run
    exact .vaArg ⟨token, arg⟩ opened (sound.assignment first) comma second closed
  rw [if_neg arg] at run
  have free : ∀ text ∈ Context.reserved, (c.current s).value ≠ text.toList := by
    simp only [Context.reserved, List.forall_mem_cons]
    exact ⟨func, start, finish, copy, arg, by simp⟩
  split at run
  next found =>
    cases run
    exact .enumConst token free found
  next noConst => exact parseName_sound sound ⟨token, free, noConst⟩ run

theorem parsePrimary_sound (sound : Sound c self) (run : parsePrimary c self s = .ok (e, s')) :
    Derives c .primary [e] s s' := by
  unfold parsePrimary at run
  dsimp only at run
  split at run
  next token => cases run; exact .int token
  next token => cases run; exact .float token
  next token => cases run; exact .double token
  next token => cases run; exact .string token
  next token => cases run; exact .char token
  next token => exact parseIdentifier_sound sound token run
  next opened =>
    simp only [bind_eq_ok, Prod.exists, expect_iff] at run
    obtain ⟨inner, s₁, read, -, -, ⟨closed, rfl, rfl⟩, same⟩ := run
    cases same
    exact .paren opened (sound.expression read) closed
  next => cases run

theorem parsePostfixSuffixes_sound (sound : Sound c self) {n : Nat} {base : Expr}
    (before : Derives c .postfixed [base] s s₁)
    (run : parsePostfixSuffixes c self n base s₁ = .ok (e, s')) :
    Derives c .postfixed [e] s s' := by
  induction n generalizing base s₁ with
  | zero => cases run
  | succ n ih =>
    unfold parsePostfixSuffixes at run
    split at run
    next opened =>
      simp only [bind_eq_ok, Prod.exists] at run
      obtain ⟨args, s₂, read, rest⟩ := run
      exact ih (.callThrough before opened (parseArguments_sound sound read)) rest
    next opened =>
      split at run
      next fits =>
        simp only [bind_eq_ok, Prod.exists, expect_iff] at run
        obtain ⟨index, s₂, read, -, -, ⟨closed, rfl, rfl⟩, rest⟩ := run
        exact ih (.subscript before fits opened (sound.expression read) closed) rest
      next => cases run
    next dot =>
      simp only [bind_eq_ok, Prod.exists, expect_iff] at run
      obtain ⟨-, -, ⟨field, rfl, rfl⟩, rest⟩ := run
      exact ih (.member before dot field) rest
    next arrow =>
      simp only [bind_eq_ok, Prod.exists, expect_iff] at run
      obtain ⟨-, -, ⟨field, rfl, rfl⟩, rest⟩ := run
      exact ih (.arrow before arrow field) rest
    next op => exact ih (.increment before op) run
    next op => exact ih (.decrement before op) run
    next =>
      cases run
      exact before

theorem buildCompoundLiteral_sound (sound : Sound c self) {t : CType} (opened : c.type s = .lbrace)
    (run : buildCompoundLiteral c self t s = .ok (e, s')) :
    Derives c (.literal t) [e] s s' := by
  obtain ⟨kind, list, read, rfl⟩ | ⟨kind, list, read, rfl⟩ |
    ⟨kind, init, s₁, s₂, read, comma, closed, rfl, rfl⟩ := buildCompoundLiteral_iff.mp run
  · exact .record kind (sound.braces opened read)
  · exact .array kind (sound.braces opened read)
  · exact .scalar kind (sound.assignment read) comma closed

theorem parsePostfix_sound (sound : Sound c self) (run : parsePostfix c self s = .ok (e, s')) :
    Derives c .postfixed [e] s s' := by
  obtain ⟨base, s₂, suffixes, ⟨t, s₁, ahead, read⟩ | ⟨ahead, read⟩⟩ := parsePostfix_iff.mp run
  · obtain ⟨-, s₃, -, -, opened, rfl⟩ := compoundLiteralAhead_some ahead
    exact parsePostfixSuffixes_sound sound
      (.compound ahead (buildCompoundLiteral_sound sound opened read)) suffixes
  · exact parsePostfixSuffixes_sound sound (.ofPrimary ahead (parsePrimary_sound sound read))
      suffixes

theorem parseUnary_sound (sound : Sound c self) (run : parseUnary c self s = .ok (e, s')) :
    Derives c .unary [e] s s' := by
  obtain ⟨op, run⟩ | ⟨op, o, read, fits, rfl⟩ | ⟨node, o, op, read, rfl⟩ | ⟨-, -, -, run⟩ :=
    parseUnary_iff.mp run
  · obtain ⟨bare, o, read, rfl⟩ |
      ⟨opened, isType, t, s₁, read, notVoid, complete, closed, rfl, rfl⟩ |
      ⟨opened, noType, -, o, s₁, read, closed, rfl, rfl⟩ := parseSizeof_iff.mp run
    · exact .sizeofUnary op bare (sound.unary read)
    · exact .sizeofType op opened isType read notVoid complete closed
    · exact .sizeofExpr op opened noType (sound.expression read) closed
  · exact .addrOf op (sound.unary read) fits
  · exact .prefixed op (sound.unary read)
  · exact .ofPostfix (parsePostfix_sound sound run)

theorem parseCast_sound (sound : Sound c self) (run : parseCast c self s = .ok (e, s')) :
    Derives c (.operators 0) [e] s s' := by
  obtain ⟨noCast, run⟩ | ⟨ahead, t, s₁, o, type, closed, noLiteral, sized, read, rfl⟩ :=
    parseCast_iff.mp run
  · exact .ofUnary noCast (parseUnary_sound sound run)
  · exact .cast ahead type closed noLiteral sized (sound.cast read)

theorem binaryLoop_sound {k n : Nat} {left : Expr}
    (operand : ∀ {s e s'}, levelReader c self k s = .ok (e, s') → Derives c (.operators k) [e] s s')
    (before : Derives c (.operators (k + 1)) [left] s s₁)
    (run : binaryLoop c (levelOperator k) (levelReader c self k) n left s₁ = .ok (e, s')) :
    Derives c (.operators (k + 1)) [e] s s' := by
  induction n generalizing left s₁ with
  | zero => cases run
  | succ n ih =>
    unfold binaryLoop at run
    split at run
    next =>
      cases run
      exact before
    next op operator =>
      simp only [bind_eq_ok, Prod.exists] at run
      obtain ⟨right, s₂, read, rest⟩ := run
      exact ih (.binary before operator (operand read)) rest

theorem levelReader_sound (sound : Sound c self) {k : Nat}
    (run : levelReader c self k s = .ok (e, s')) : Derives c (.operators k) [e] s s' := by
  induction k generalizing s e s' with
  | zero => exact parseCast_sound sound run
  | succ k ih =>
    obtain ⟨left, s₁, read, rest⟩ := levelReader_succ_iff.mp run
    exact binaryLoop_sound ih (.climb (ih read)) rest

theorem parseConditional_sound (sound : Sound c self)
    (run : parseConditional c self s = .ok (e, s')) : Derives c .conditional [e] s s' := by
  obtain ⟨cond, s₁, read, ⟨-, rfl, rfl⟩ |
    ⟨question, -, e₂, s₂, e₃, first, colon, second, rfl⟩⟩ := parseConditional_iff.mp run
  · exact .ofOperators (levelReader_sound sound read)
  · exact .conditional (levelReader_sound sound read) question (sound.expression first) colon
      (sound.conditional second)

theorem parseAssignmentExpression_sound (sound : Sound c self)
    (run : parseAssignmentExpression c self s = .ok (e, s')) :
    Derives c .assignment [e] s s' := by
  obtain ⟨token, op, rhs, read, rfl⟩ | ⟨noName, lhs, s₁, left, ⟨-, rfl, rfl⟩ |
    ⟨op, fits, rhs, read, rfl⟩⟩ := parseAssignmentExpression_iff.mp run
  · exact .assignName token op (sound.assignment read)
  · exact .ofConditional (parseConditional_sound sound left)
  · exact .assignTo noName (parseConditional_sound sound left) fits op (sound.assignment read)

theorem parseInitializerElement_sound (sound : Sound c self)
    (run : parseInitializerElement c self s = .ok (e, s')) : Derives c .element [e] s s' := by
  obtain ⟨dot, field, value, read, rfl⟩ |
    ⟨opened, i, s₁, value, index, nonneg, closed, read, rfl⟩ | ⟨-, -, read⟩ :=
    parseInitializerElement_iff.mp run
  · obtain ⟨assign, read⟩ := parseDesignated_iff.mp read
    exact .memberElement dot field assign (sound.initializer read)
  · obtain ⟨assign, read⟩ := parseDesignated_iff.mp read
    exact .indexElement opened index nonneg closed assign (sound.initializer read)
  · exact .ofInitializer (sound.initializer read)

/-- The loop may end behind a comma, but only before the brace that closes the list. -/
theorem elementsLoop_sound (sound : Sound c self) {n : Nat} (before : Derives c .elements es s s₁)
    (run : elementsLoop c self n es s₁ = .ok (es', s')) : Derives c .elements es' s s' ∨
      ∃ s₂, Derives c .elements es' s s₂ ∧ c.type s₂ = .comma ∧ s' = s₂.tail := by
  induction n generalizing es s₁ with
  | zero => cases run
  | succ n ih =>
    unfold elementsLoop at run
    split at run
    next comma =>
      split at run
      next =>
        cases run
        exact .inr ⟨s₁, before, comma, rfl⟩
      next =>
        simp only [bind_eq_ok, Prod.exists] at run
        obtain ⟨last, s₂, read, rest⟩ := run
        exact ih (.moreElements before comma (parseInitializerElement_sound sound read)) rest
    next =>
      cases run
      exact .inl before

theorem parseInitializer_braces (sound : Sound c self) (opened : c.type s = .lbrace)
    (run : parseInitializer c self s = .ok (e, s')) : Derives c .braces [e] s s' := by
  obtain ⟨other, -⟩ | ⟨-, closed, rfl, rfl⟩ |
    ⟨-, -, first, s₁, elements, s₂, read, rest, closed, rfl, rfl⟩ := parseInitializer_iff.mp run
  · exact absurd opened other
  · exact .noElements opened closed
  · obtain inner | ⟨s₃, inner, comma, rfl⟩ :=
      elementsLoop_sound sound (.oneElement (parseInitializerElement_sound sound read)) rest
    · exact .braces opened inner closed
    · exact .bracesComma opened inner comma closed

theorem parseInitializer_sound (sound : Sound c self)
    (run : parseInitializer c self s = .ok (e, s')) : Derives c .initializer [e] s s' := by
  by_cases opened : c.type s = .lbrace
  · exact .initBraces (parseInitializer_braces sound opened run)
  · have read := run
    rw [parseInitializer, if_pos opened] at read
    exact .initExpr (parseAssignmentExpression_sound sound read)

theorem commaLoop_sound (sound : Sound c self) {n : Nat} {left : Expr}
    (before : Derives c .expression [left] s s₁)
    (run : commaLoop c self n left s₁ = .ok (e, s')) : Derives c .expression [e] s s' := by
  induction n generalizing left s₁ with
  | zero => cases run
  | succ n ih =>
    unfold commaLoop at run
    split at run
    next comma =>
      simp only [bind_eq_ok, Prod.exists] at run
      obtain ⟨right, s₂, read, rest⟩ := run
      exact ih (.comma before comma (parseAssignmentExpression_sound sound read)) rest
    next =>
      cases run
      exact before

theorem parseExpression_sound (sound : Sound c self)
    (run : parseExpression c self s = .ok (e, s')) : Derives c .expression [e] s s' := by
  obtain ⟨left, s₁, read, rest⟩ := parseExpression_iff.mp run
  exact commaLoop_sound sound (.ofAssignment (parseAssignmentExpression_sound sound read)) rest

theorem parsers_sound (n : Nat) : Sound c (parsers c n) := by
  induction n with
  | zero => constructor <;> simp [parsers]
  | succ n ih =>
    exact
      { expression := parseExpression_sound ih
        assignment := parseAssignmentExpression_sound ih
        conditional := parseConditional_sound ih
        cast := parseCast_sound ih
        unary := parseUnary_sound ih
        initializer := parseInitializer_sound ih
        braces := parseInitializer_braces ih }

end sound

end ClaudeC99.Expressions
