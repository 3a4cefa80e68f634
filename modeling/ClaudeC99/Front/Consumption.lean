import ClaudeC99.Front.GrammarComplete

/-! What the expression parser takes off the tokens. -/

namespace ClaudeC99.Expressions

open Front (TokenType)

/-- The readers of type names and constant expressions take tokens off the front. -/
structure Context.Forward (c : Context) : Prop where
  typeName : ∀ {s t s'}, c.parseTypeName s = .ok (t, s') → s' <:+ s
  constExpr : ∀ {what s i s'}, c.evalConstExpr what s = .ok (i, s') → s' <:+ s

/-- At least one token is taken off the front. -/
def Takes (s s' : Tokens) : Prop := s' <:+ s.tail ∧ s ≠ []

section takes

variable {c : Context} {l : Level} {s s₁ s₂ s' : Tokens} {e : Expr} {es : List Expr}

theorem ne_nil_of_type {t : TokenType} (found : c.type s = t) (noEnd : t ≠ .eof) : s ≠ [] := by
  rintro rfl
  exact noEnd (found.symm.trans c.atEnd)

theorem Takes.one {t : TokenType} (found : c.type s = t) (noEnd : t ≠ .eof) : Takes s s.tail :=
  ⟨List.suffix_rfl, ne_nil_of_type found noEnd⟩

theorem Takes.suffix (h : Takes s s') : s' <:+ s := h.1.trans (List.tail_suffix s)

theorem Takes.then_suffix (h : Takes s s₁) (rest : s' <:+ s₁) : Takes s s' :=
  ⟨rest.trans h.1, h.2⟩

theorem Takes.trans (h : Takes s s₁) (rest : Takes s₁ s') : Takes s s' := h.then_suffix rest.suffix

theorem Takes.tail (h : Takes s s') : Takes s s'.tail := h.then_suffix (List.tail_suffix s')

theorem Takes.length (h : Takes s s') : s'.length < s.length := by
  have le := h.1.length_le
  have pos := List.length_pos_iff.mpr h.2
  rw [List.length_tail] at le
  omega

theorem Takes.start (start : isStart (c.type s) = true) : Takes s s.tail :=
  .one (c := c) rfl fun same => by simp [same, isStart, isOperandStart] at start

theorem isString_of_type (token : c.type s = .stringLiteral) : s.dropWhile isString <:+ s.tail := by
  cases s with
  | nil => exact List.suffix_rfl
  | cons t s =>
    have string : isString t = true := decide_eq_true token
    rw [List.dropWhile_cons, if_pos string]
    exact List.dropWhile_suffix _

/-- Every derivation takes tokens off the front, and at least one. -/
theorem Derives.takes (forward : c.Forward) (h : Derives c l es s s') : Takes s s' := by
  induction h with
  | int token | float token | double token | char token => exact .one token (by decide)
  | string token => exact ⟨isString_of_type token, ne_nil_of_type token (by decide)⟩
  | func token => exact .one token.1 (by decide)
  | vaStart token opened _ _ _ _ _ first second | vaCopy token opened _ _ _ _ first second =>
    exact (((Takes.one token.1 (by decide)).tail.trans first).tail.trans second).tail
  | vaEnd token opened _ _ only => exact ((Takes.one token.1 (by decide)).tail.trans only).tail
  | vaArg token opened _ _ second _ first =>
    exact (((Takes.one token.1 (by decide)).tail.trans first).tail.then_suffix
      (forward.typeName second)).tail
  | enumConst token => exact .one token (by decide)
  | «variable» token => exact .one token.1 (by decide)
  | call token _ _ _ _ inner | callVariable token _ _ _ inner =>
    exact (Takes.one token.1 (by decide)).tail.trans inner
  | paren opened _ _ inner => exact ((Takes.one opened (by decide)).trans inner).tail
  | noArguments closed => exact .one closed (by decide)
  | arguments _ _ inner => exact inner.tail
  | one _ ih | ofPrimary _ _ ih | ofPostfix _ ih | ofUnary _ _ ih | climb _ ih
  | ofOperators _ ih | ofConditional _ ih | ofAssignment _ ih | oneElement _ ih
  | ofInitializer _ ih | initExpr _ ih | initBraces _ ih | record _ _ ih | array _ _ ih => exact ih
  | more _ _ _ before last | comma _ _ _ before last | moreElements _ _ _ before last
  | binary _ _ _ before last => exact before.tail.trans last
  | compound ahead _ ih =>
    obtain ⟨castAhead, s₂, type, -, -, rfl⟩ := compoundLiteralAhead_some ahead
    exact ((Takes.one castAhead.1 (by decide)).then_suffix (forward.typeName type)).tail.trans ih
  | callThrough _ _ _ base inner => exact base.tail.trans inner
  | subscript _ _ _ _ _ base index => exact (base.tail.trans index).tail
  | member _ _ _ base | arrow _ _ _ base => exact base.tail.tail
  | increment _ _ base | decrement _ _ base => exact base.tail
  | prefixed op _ ih => exact (Takes.start (isStart_prefixNode op)).trans ih
  | addrOf op _ _ ih | sizeofUnary op _ _ ih => exact (Takes.one op (by decide)).trans ih
  | sizeofExpr op _ _ _ _ ih => exact ((Takes.one op (by decide)).tail.trans ih).tail
  | sizeofType op _ _ operand =>
    exact ((Takes.one op (by decide)).tail.then_suffix (forward.typeName operand)).tail
  | cast ahead type _ _ _ _ ih =>
    exact ((Takes.one ahead.1 (by decide)).then_suffix (forward.typeName type)).tail.trans ih
  | conditional _ _ _ _ _ cond first second => exact (cond.tail.trans first).tail.trans second
  | assignName token _ _ ih => exact (Takes.one token (by decide)).tail.trans ih
  | assignTo _ _ _ _ _ left value => exact left.tail.trans value
  | noElements opened => exact (Takes.one opened (by decide)).tail
  | braces opened _ _ ih => exact ((Takes.one opened (by decide)).trans ih).tail
  | bracesComma opened _ _ _ ih => exact ((Takes.one opened (by decide)).trans ih).tail.tail
  | memberElement dot _ _ _ ih => exact (Takes.one dot (by decide)).tail.tail.trans ih
  | indexElement opened index _ _ _ _ ih =>
    exact ((Takes.one opened (by decide)).then_suffix (forward.constExpr index)).tail.tail.trans ih
  | @scalar t s e s' s'' _ _ comma _ ih =>
    have after : s'' <:+ s' := by
      rw [comma]
      split
      · exact List.tail_suffix s'
      · exact List.suffix_rfl
    have rest := (ih.then_suffix after).tail
    exact ⟨rest.suffix, fun none => ih.2 (by rw [none]; rfl)⟩

/-- What the parser reads as an expression is at least one token, and the rest of the tokens stays
as it is. -/
theorem expression_takes (forward : c.Forward) {n : Nat}
    (read : (parsers c n).expression s = .ok (e, s')) : ∃ taken, taken ≠ [] ∧ s = taken ++ s' := by
  have takes := ((parsers_sound n).expression read).takes forward
  obtain ⟨taken, whole⟩ := takes.suffix
  refine ⟨taken, ?_, whole.symm⟩
  rintro rfl
  have shorter := takes.length
  rw [← whole] at shorter
  exact absurd shorter (lt_irrefl _)

end takes

theorem bare_forward : bare.Forward := by
  constructor
  · intro s t s' read
    cases read
  · intro what s i s' read
    cases read

theorem plain_takes : ∃ taken, taken ≠ [] ∧ plainSubscript = taken ++ [] :=
  expression_takes bare_forward (show (parsers bare 5).expression plainSubscript =
    .ok (plainTree, []) from rfl)

end ClaudeC99.Expressions
