import ClaudeC99.Front.Grammar

/-! What each function of the expression parser accepts, in terms of the functions it calls. -/

namespace ClaudeC99.Expressions

open Front (TokenType FuncSig ConstOperator parserFindFunction)
open StateExcept (bind_eq_ok)

section specs

variable {c : Context} {self : Callees} {s s' : Tokens} {e : Expr} {es : List Expr}

theorem error_ne {α : Type} {text : String} {a : α} : c.error s text ≠ .ok a := by
  intro same
  cases same

theorem guard_iff {α : Type} {p : Prop} [Decidable p] {text : String} {x : Except String α}
    {a : α} :
    (if p then c.error s text else x) = .ok a ↔ ¬ p ∧ x = .ok a := by
  split
  next holds => simp [holds, error_ne]
  next fails => simp [fails]

theorem expect_iff {t : TokenType} {a : Front.Token} :
    c.expect t s = .ok (a, s') ↔ c.type s = t ∧ a = c.current s ∧ s' = s.tail := by
  unfold Context.expect
  split
  next found => simp [found, eq_comm]
  next other => simp [other, error_ne]

theorem parseArguments_iff :
    parseArguments c self s = .ok (es, s') ↔
      c.type s = .rparen ∧ es = [] ∧ s' = s.tail ∨
      c.type s ≠ .rparen ∧ ∃ e s₁ s₂, self.assignment s = .ok (e, s₁) ∧
        argumentsLoop c self self.rounds [e] s₁ = .ok (es, s₂) ∧ c.type s₂ = .rparen ∧
        s' = s₂.tail := by
  unfold parseArguments
  split
  next found => simp [found, eq_comm]
  next other =>
    simp only [bind_eq_ok, Prod.exists, expect_iff, other, false_and, false_or, ne_eq,
      not_false_eq_true, true_and]
    grind

theorem checkArity_iff {sig : FuncSig} {name : String} {count : Nat} {u : Unit} :
    checkArity c sig name count s = .ok u ↔ Accepts sig count := by
  unfold checkArity Accepts Context.error
  grind

theorem parseName_iff :
    parseName c self s = .ok (e, s') ↔
      c.type s.tail ≠ .lparen ∧ e = .varRef (c.name s) ∧ s' = s.tail ∨
      c.type s.tail = .lparen ∧ ∃ args, parseArguments c self s.tail.tail = .ok (args, s') ∧
        ((∃ sig, parserFindFunction c.funcs (c.name s) = some sig ∧ Accepts sig args.length ∧
            e = .functionCall (c.name s) sig.returnType args) ∨
          parserFindFunction c.funcs (c.name s) = none ∧
            e = .indirectCall (.varRef (c.name s)) args) := by
  unfold parseName Context.name
  by_cases opened : c.type s.tail = .lparen
  · cases known : parserFindFunction c.funcs (String.ofList (c.current s).value) with
    | none =>
      simp only [opened, known, ↓reduceIte, bind_eq_ok, Prod.exists]
      grind
    | some sig =>
      simp only [opened, known, ↓reduceIte, bind_eq_ok, Prod.exists, checkArity_iff, exists_const]
      grind
  · simp only [opened]
    grind

theorem parseVaStart_iff :
    parseVaStart c self s = .ok (e, s') ↔ ∃ ap s₁ last s₂, c.type s.tail = .lparen ∧
      c.currentFuncIsVariadic = true ∧ self.assignment s.tail.tail = .ok (ap, s₁) ∧
      c.type s₁ = .comma ∧ self.assignment s₁.tail = .ok (last, s₂) ∧ c.type s₂ = .rparen ∧
      e = .vaStart ap last ∧ s' = s₂.tail := by
  unfold parseVaStart
  simp only [bind_eq_ok, Prod.exists, expect_iff, guard_iff]
  grind

theorem parseVaEnd_iff :
    parseVaEnd c self s = .ok (e, s') ↔ ∃ ap s₁, c.type s.tail = .lparen ∧
      self.assignment s.tail.tail = .ok (ap, s₁) ∧ c.type s₁ = .rparen ∧ e = .vaEnd ap ∧
      s' = s₁.tail := by
  unfold parseVaEnd
  simp only [bind_eq_ok, Prod.exists, expect_iff]
  grind

theorem parseVaCopy_iff :
    parseVaCopy c self s = .ok (e, s') ↔ ∃ dst s₁ src s₂, c.type s.tail = .lparen ∧
      self.assignment s.tail.tail = .ok (dst, s₁) ∧ c.type s₁ = .comma ∧
      self.assignment s₁.tail = .ok (src, s₂) ∧ c.type s₂ = .rparen ∧ e = .vaCopy dst src ∧
      s' = s₂.tail := by
  unfold parseVaCopy
  simp only [bind_eq_ok, Prod.exists, expect_iff]
  grind

theorem parseVaArg_iff :
    parseVaArg c self s = .ok (e, s') ↔ ∃ ap s₁ t s₂, c.type s.tail = .lparen ∧
      self.assignment s.tail.tail = .ok (ap, s₁) ∧ c.type s₁ = .comma ∧
      c.parseTypeName s₁.tail = .ok (t, s₂) ∧ c.type s₂ = .rparen ∧ e = .vaArg ap t ∧
      s' = s₂.tail := by
  unfold parseVaArg
  simp only [bind_eq_ok, Prod.exists, expect_iff]
  grind

theorem compoundLiteralAhead_some {t : CType} {s₁ : Tokens}
    (ahead : compoundLiteralAhead c s = .ok (some (t, s₁))) : c.CastAhead s ∧
      ∃ s₂, c.parseTypeName s.tail = .ok (t, s₂) ∧ c.type s₂ = .rparen ∧
        c.type s₂.tail = .lbrace ∧ s₁ = s₂.tail := by
  unfold compoundLiteralAhead at ahead
  split at ahead
  next castAhead =>
    simp only [bind_eq_ok, Prod.exists] at ahead
    exact ⟨castAhead, by grind⟩
  next => cases ahead

theorem compoundLiteralAhead_of {t : CType} {s₁ : Tokens} (castAhead : c.CastAhead s)
    (type : c.parseTypeName s.tail = .ok (t, s₁)) (closed : c.type s₁ = .rparen)
    (opened : c.type s₁.tail = .lbrace) :
    compoundLiteralAhead c s = .ok (some (t, s₁.tail)) := by
  refine (if_pos castAhead).trans ?_
  rw [bind_eq_ok]
  exact ⟨_, type, if_pos ⟨closed, opened⟩⟩

theorem parsePostfix_iff :
    parsePostfix c self s = .ok (e, s') ↔ ∃ base s₂,
      parsePostfixSuffixes c self self.rounds base s₂ = .ok (e, s') ∧
        ((∃ t s₁, compoundLiteralAhead c s = .ok (some (t, s₁)) ∧
            buildCompoundLiteral c self t s₁ = .ok (base, s₂)) ∨
          compoundLiteralAhead c s = .ok none ∧ parsePrimary c self s = .ok (base, s₂)) := by
  unfold parsePostfix
  cases ahead : compoundLiteralAhead c s with
  | error text => simp [bind, Except.bind]
  | ok found =>
    cases found with
    | none => simp [bind_eq_ok, Prod.exists, and_comm]
    | some found =>
      obtain ⟨t, s₁⟩ := found
      simp [bind_eq_ok, Prod.exists, and_comm]

theorem parseSizeof_iff :
    parseSizeof c self s = .ok (e, s') ↔
      (c.type s.tail ≠ .lparen ∧ ∃ o, self.unary s.tail = .ok (o, s') ∧ e = .sizeofExpr o) ∨
      (c.type s.tail = .lparen ∧ c.startsTypeName s.tail.tail = true ∧ ∃ t s₁,
        c.parseTypeName s.tail.tail = .ok (t, s₁) ∧ t.kind ≠ .void ∧
        ¬ (t.kind = .array ∧ t.length = 0) ∧ c.type s₁ = .rparen ∧
        e = .sizeofType t.kind
          (if t.kind = .struct ∨ t.kind = .union ∨ t.kind = .array then some t else none) ∧
        s' = s₁.tail) ∨
      c.type s.tail = .lparen ∧ c.startsTypeName s.tail.tail = false ∧
        c.type s.tail.tail ≠ .rparen ∧ ∃ o s₁, self.expression s.tail.tail = .ok (o, s₁) ∧
        c.type s₁ = .rparen ∧ e = .sizeofExpr o ∧ s' = s₁.tail := by
  unfold parseSizeof
  by_cases opened : c.type s.tail = .lparen
  · by_cases isType : c.startsTypeName s.tail.tail = true
    · simp only [opened, isType, ne_eq, not_true_eq_false, ↓reduceIte, bind_eq_ok, Prod.exists,
        guard_iff, expect_iff]
      grind
    · simp only [opened, isType, ne_eq, not_true_eq_false, Bool.false_eq_true, ↓reduceIte,
        guard_iff, bind_eq_ok, Prod.exists, expect_iff]
      grind
  · simp only [opened, ne_eq, not_false_eq_true, ↓reduceIte, bind_eq_ok, Prod.exists]
    grind

theorem buildCompoundLiteral_iff {t : CType} :
    buildCompoundLiteral c self t s = .ok (e, s') ↔
      (t.kind = .struct ∨ t.kind = .union) ∧ (∃ list, self.initializer s = .ok (list, s') ∧
        e = .compoundLiteral t.kind (some t) false 0 list) ∨
      t.kind = .array ∧ (∃ list, self.initializer s = .ok (list, s') ∧
        e = .compoundLiteral .array (some (sizedBy t list))
          ((sizedBy t list).base.any isUnsignedType) 0 list) ∨
      t.kind ∉ [.void, .function, .struct, .union, .array] ∧ ∃ init s₁ s₂,
        self.assignment s.tail = .ok (init, s₁) ∧
        s₂ = (if c.type s₁ = .comma then s₁.tail else s₁) ∧ c.type s₂ = .rbrace ∧
        e = .compoundLiteral t.kind (if t.kind = .pointer then some t else none)
          (isUnsignedType t) 0 init ∧ s' = s₂.tail := by
  unfold buildCompoundLiteral
  split
  all_goals simp_all only [bind_eq_ok, Prod.exists, expect_iff]
  all_goals grind [error_ne]

theorem parseUnary_iff :
    parseUnary c self s = .ok (e, s') ↔
      c.type s = .sizeof ∧ parseSizeof c self s = .ok (e, s') ∨
      c.type s = .ampersand ∧ (∃ o, self.unary s.tail = .ok (o, s') ∧ isAddressable o = true ∧
        e = .addrOf o) ∨
      (∃ node o, prefixNode (c.type s) = some node ∧ self.unary s.tail = .ok (o, s') ∧
        e = node o) ∨
      c.type s ≠ .sizeof ∧ c.type s ≠ .ampersand ∧ prefixNode (c.type s) = none ∧
        parsePostfix c self s = .ok (e, s') := by
  unfold parseUnary
  by_cases isSizeof : c.type s = .sizeof
  · simp [isSizeof, prefixNode]
  · by_cases isAmpersand : c.type s = .ampersand
    · simp only [isAmpersand, reduceCtorEq, ↓reduceIte, bind_eq_ok, Prod.exists]
      grind [error_ne, prefixNode]
    · cases node : prefixNode (c.type s) with
      | none => simp [isSizeof, isAmpersand]
      | some f =>
        simp only [isSizeof, isAmpersand, ↓reduceIte, bind_eq_ok, Prod.exists]
        grind

theorem parseUnary_lparen (opened : c.type s = .lparen) :
    parseUnary c self s = parsePostfix c self s := by
  unfold parseUnary
  simp [opened, prefixNode]

theorem parseCast_iff :
    parseCast c self s = .ok (e, s') ↔
      (c.CastAhead s → ∃ t s₁, compoundLiteralAhead c s = .ok (some (t, s₁))) ∧
        parseUnary c self s = .ok (e, s') ∨
      c.CastAhead s ∧ ∃ t s₁ o, c.parseTypeName s.tail = .ok (t, s₁) ∧ c.type s₁ = .rparen ∧
        c.type s₁.tail ≠ .lbrace ∧ ¬ (t.kind = .array ∧ t.length = 0) ∧
        self.cast s₁.tail = .ok (o, s') ∧
        e = .cast t.kind (!t.isSigned) (if t.kind = .pointer then some t else none) o := by
  by_cases ahead : c.CastAhead s
  · rw [parseUnary_lparen ahead.1, parsePostfix_iff, parseCast, if_pos (show _ ∧ _ from ahead)]
    simp only [bind_eq_ok, Prod.exists, expect_iff]
    constructor
    · rintro ⟨t, s₁, type, -, -, ⟨closed, rfl, rfl⟩, rest⟩
      split at rest
      next opened =>
        have literal := compoundLiteralAhead_of ahead type closed opened
        simp only [bind_eq_ok, Prod.exists] at rest
        obtain ⟨base, s₂, built, suffixes⟩ := rest
        exact .inl ⟨fun _ => ⟨t, _, literal⟩, base, s₂, suffixes, .inl ⟨t, _, literal, built⟩⟩
      next noLiteral =>
        simp only [guard_iff, bind_eq_ok, Prod.exists] at rest
        grind
    · rintro (⟨found, base, s₂, suffixes, built⟩ | ⟨-, t, s₁, o, type, closed, noLiteral, rest⟩)
      · obtain ⟨t, s₁, literal⟩ := found ahead
        obtain ⟨-, s₃, type, closed, opened, rfl⟩ := compoundLiteralAhead_some literal
        refine ⟨t, s₃, type, _, _, ⟨closed, rfl, rfl⟩, ?_⟩
        rw [if_pos opened, bind_eq_ok]
        grind
      · refine ⟨t, s₁, type, _, _, ⟨closed, rfl, rfl⟩, ?_⟩
        rw [if_neg noLiteral, guard_iff, bind_eq_ok]
        grind
  · rw [parseCast, if_neg (show ¬ (_ ∧ _) from ahead)]
    simp [ahead]

theorem parseConditional_iff :
    parseConditional c self s = .ok (e, s') ↔ ∃ e₁ s₁, parseLogicalOr c self s = .ok (e₁, s₁) ∧
      (c.type s₁ ≠ .question ∧ e = e₁ ∧ s' = s₁ ∨
        c.type s₁ = .question ∧ c.type s₁.tail ≠ .colon ∧ ∃ e₂ s₂ e₃,
          self.expression s₁.tail = .ok (e₂, s₂) ∧ c.type s₂ = .colon ∧
          self.conditional s₂.tail = .ok (e₃, s') ∧ e = .conditional e₁ e₂ e₃) := by
  unfold parseConditional
  simp only [bind_eq_ok, Prod.exists]
  refine exists_congr fun e₁ => exists_congr fun s₁ => and_congr_right fun _ => ?_
  split
  next none => 
    simp only [none]
    grind
  next question =>
    simp only [guard_iff, bind_eq_ok, Prod.exists]
    grind

theorem parseDesignated_iff :
    parseDesignated c self s = .ok (e, s') ↔
      c.type s = .assign ∧ self.initializer s.tail = .ok (e, s') := by
  unfold parseDesignated
  simp only [guard_iff, bind_eq_ok, Prod.exists, expect_iff]
  grind

theorem parseInitializerElement_iff :
    parseInitializerElement c self s = .ok (e, s') ↔
      (c.type s = .dot ∧ c.type s.tail = .identifier ∧ ∃ value,
        parseDesignated c self s.tail.tail = .ok (value, s') ∧
        e = .designatedMember (c.name s.tail) value) ∨
      (c.type s = .lbracket ∧ ∃ i s₁ value,
        c.evalConstExpr "array designator index" s.tail = .ok (i, s₁) ∧ 0 ≤ i ∧
        c.type s₁ = .rbracket ∧ parseDesignated c self s₁.tail = .ok (value, s') ∧
        e = .designatedIndex i.toNat value) ∨
      c.type s ≠ .dot ∧ c.type s ≠ .lbracket ∧ self.initializer s = .ok (e, s') := by
  unfold parseInitializerElement
  split
  next dot =>
    simp only [dot, bind_eq_ok, Prod.exists, expect_iff, Context.name]
    grind
  next noDot =>
    split
    next opened =>
      simp only [opened, guard_iff, bind_eq_ok, Prod.exists, expect_iff]
      grind
    next => grind

theorem parseAssignmentExpression_iff :
    parseAssignmentExpression c self s = .ok (e, s') ↔
      (c.type s = .identifier ∧ isAssignment (c.type s.tail) = true ∧ ∃ rhs,
        self.assignment s.tail.tail = .ok (rhs, s') ∧ e = .assignment (c.name s)
          (assignedValue (c.type s.tail) (.varRef (c.name s)) rhs)) ∨
      ¬ (c.type s = .identifier ∧ isAssignment (c.type s.tail) = true) ∧ ∃ lhs s₁,
        parseConditional c self s = .ok (lhs, s₁) ∧
          (isAssignment (c.type s₁) = false ∧ e = lhs ∧ s' = s₁ ∨
            isAssignment (c.type s₁) = true ∧ isTarget lhs = true ∧ ∃ rhs,
              self.assignment s₁.tail = .ok (rhs, s') ∧
              e = .assignmentTo lhs (assignedValue (c.type s₁) lhs rhs)) := by
  unfold parseAssignmentExpression
  split
  next named =>
    simp only [named, bind_eq_ok, Prod.exists, Context.name]
    grind
  next other =>
    simp only [bind_eq_ok, Prod.exists]
    grind [error_ne, bind_eq_ok]

theorem parseInitializer_iff :
    parseInitializer c self s = .ok (e, s') ↔
      c.type s ≠ .lbrace ∧ parseAssignmentExpression c self s = .ok (e, s') ∨
      c.type s = .lbrace ∧ c.type s.tail = .rbrace ∧ e = .initializerList [] ∧
        s' = s.tail.tail ∨
      c.type s = .lbrace ∧ c.type s.tail ≠ .rbrace ∧ ∃ first s₁ elements s₂,
        parseInitializerElement c self s.tail = .ok (first, s₁) ∧
        elementsLoop c self self.rounds [first] s₁ = .ok (elements, s₂) ∧ c.type s₂ = .rbrace ∧
        e = .initializerList elements ∧ s' = s₂.tail := by
  unfold parseInitializer
  split
  next => grind
  next =>
    split
    next => grind
    next =>
      simp only [guard_iff, bind_eq_ok, Prod.exists]
      grind

/-- The reader of a level of binary operators. -/
def levelReader (c : Context) (self : Callees) : Nat → ExprReader
  | 0 => parseCast c self
  | k + 1 => binaryLevel c self (levelOperator k) (levelReader c self k)

theorem parseLogicalOr_eq : parseLogicalOr c self = levelReader c self 10 := rfl

theorem levelReader_succ_iff {k : Nat} :
    levelReader c self (k + 1) s = .ok (e, s') ↔ ∃ left s₁,
      levelReader c self k s = .ok (left, s₁) ∧
      binaryLoop c (levelOperator k) (levelReader c self k) self.rounds left s₁ = .ok (e, s') := by
  rw [levelReader]
  unfold binaryLevel
  simp only [bind_eq_ok, Prod.exists]

theorem parseExpression_iff :
    parseExpression c self s = .ok (e, s') ↔ ∃ left s₁,
      parseAssignmentExpression c self s = .ok (left, s₁) ∧
      commaLoop c self self.rounds left s₁ = .ok (e, s') := by
  unfold parseExpression
  simp only [bind_eq_ok, Prod.exists]

end specs

end ClaudeC99.Expressions
