import ClaudeC99.Constant.ConditionWords

/-! Constant expressions as the parser finds them, token after token, and its evaluator on them. -/

namespace ClaudeC99.Constant

open Front
open IntArith (IntType)
open Literals (Digits IntConstant)
open Precedence

/-- The lexer has read a whole integer constant as the current token. -/
def ReadsConstant (p : Parser) (c : IntConstant) : Prop :=
  ∃ l t, NumberEnds t ∧ l.rest = c.text ++ t ∧
    lexerNextToken l = .ok (p.current, l.after c.text t)

theorem long_not_bool : IntArith.Rank.long = .bool → false = false := fun _ => rfl

def sizeType : IntType := ⟨.long, false, long_not_bool⟩

def constInteger (c : IntConstant) : Operand where
  type := c.c99Type.getD .int
  value := c.c99Type.map fun _ => (c.digits.value : Int)
  read := .ok (wrap64 c.digits.value)

/-- A character constant is a `char` converted to `int`; the lexer keeps the byte. -/
def constCharacter (byte : BitVec 8) : Operand where
  type := .int
  value := some byte.toInt
  read := .ok byte.toNat

/-- An enumeration constant has a value of type `int`. -/
def constEnumerator (v : Int) : Operand where
  type := .int
  value := if IntType.int.Holds v then some v else none
  read := .ok v

def constSize (size : Int) : Operand where
  type := sizeType
  value := some size
  read := .ok size

section Words

variable (rules : TypeRules)

/-- An operand at the current token, and the parser behind it. -/
inductive ConstOperand : Parser → Operand → Parser → Prop
  | integer {p p' : Parser} (c : IntConstant) (reads : ReadsConstant p c) (next : p.next = .ok p') :
      ConstOperand p (constInteger c) p'
  | character {p p' : Parser} (byte : BitVec 8) (type : p.current.type = .charLiteral)
      (value : p.current.longValue = byte.toNat) (next : p.next = .ok p') :
      ConstOperand p (constCharacter byte) p'
  | enumerator {p p' : Parser} {ec : EnumConst} (type : p.current.type = .identifier)
      (found : (p.enumConsts.find? fun ec => ec.name = p.current.value) = some ec)
      (next : p.next = .ok p') : ConstOperand p (constEnumerator ec.value) p'
  | size {p p' : Parser} {size : Int} (type : p.current.type = .sizeof)
      (read : evalConstSizeof rules p = .ok (size, p')) : ConstOperand p (constSize size) p'

/-- The integer type of a type name. -/
def integerType (t : CType) : Option IntType := intTypeOf t.kind !t.isSigned

/-- A word of a constant expression at the current token, and the parser behind it. A parenthesis
that opens an expression does not stand before a type name. -/
inductive ConstWord : Parser → Precedence.Word Operand Prefix BinaryOp → Parser → Prop
  | atom {p p' : Parser} {a : Operand} (operand : ConstOperand rules p a p') :
      ConstWord p (.atom a) p'
  | unary {p p' : Parser} (op : UnaryOp) (type : p.current.type = unaryToken op)
      (next : p.next = .ok p') : ConstWord p (.unary (.op op)) p'
  | cast {p p₁ p₂ p' : Parser} {t : CType} {u : IntType} (type : p.current.type = .lparen)
      (next : p.next = .ok p₁) (starts : startsSizeofType p₁ = true)
      (typed : rules.parseTypeName p₁ = .ok (t, p₂)) (integer : integerType t = some u)
      (closed : parserExpect p₂ .rparen = .ok p') :
      ConstWord p (.unary (.cast u (startsCastType p₁))) p'
  | binary {p p' : Parser} (op : BinaryOp) (type : p.current.type = binaryToken op)
      (next : p.next = .ok p') : ConstWord p (.binary op) p'
  | openParen {p p' : Parser} (type : p.current.type = .lparen) (next : p.next = .ok p')
      (noType : startsSizeofType p' = false) : ConstWord p .openParen p'
  | closeParen {p p' : Parser} (type : p.current.type = .rparen) (next : p.next = .ok p') :
      ConstWord p .closeParen p'
  | question {p p' : Parser} (type : p.current.type = .question) (next : p.next = .ok p') :
      ConstWord p .question p'
  | colon {p p' : Parser} (type : p.current.type = .colon) (next : p.next = .ok p') :
      ConstWord p .colon p'

/-- A word, of which something is read. -/
structure ConstAdvance (p : Parser) (w : Precedence.Word Operand Prefix BinaryOp) (p' : Parser) :
    Prop where
  word : ConstWord rules p w p'
  shorter : p'.size < p.size

variable (context : String)

/-- Constant expressions over any operands. -/
def constExprs : Ladder Parser String Int Operand Prefix BinaryOp where
  toGrammar := grammar
  meaning := longMeaning
  Step := ConstAdvance rules
  settle := id
  size := Parser.size
  next k := nextConstOp (constOperator k)
  asks p := p.current.type = .question
  apply := applyConstOp
  read := constRead rules context

end Words

/-- The messages for a fault; a position may stand before them. -/
def IsDivisionMessage (m : String) : Prop :=
  ∃ position, m = position ++ "error: division by zero in constant expression"

def ConstReport : Fault → String → Prop
  | .division, m => IsDivisionMessage m
  | .unread, m => ¬ IsDivisionMessage m

/-! ### Messages -/

theorem notConstant_unread (context position : String) :
    ¬ IsDivisionMessage (position ++ notConstant context) := by
  intro division
  obtain ⟨position', same⟩ := division
  have chars := congrArg String.toList same
  simp only [notConstant, String.toList_append] at chars
  have left : " is not an integer constant expression".toList =
      " is not an inte".toList ++ "ger constant expression".toList := by decide +kernel
  have right : "error: division by zero in constant expression".toList =
      "error: division by zero".toList ++ " in constant expression".toList := by decide +kernel
  have long : "ger constant expression".toList.length = " in constant expression".toList.length := by
    decide +kernel
  simp only [left, right, ← List.append_assoc] at chars
  have ends := (List.append_inj' chars long).2
  exact absurd ends (by decide +kernel)

theorem message_eq (p : Parser) (text : String) :
    ∃ position, p.message text = position ++ text := by
  unfold Parser.message
  split
  · split
    · exact ⟨_, rfl⟩
    · exact ⟨"", by simp⟩
  · exact ⟨"", by simp⟩

theorem parserError_unread (α : Type) (p : Parser) (context : String) :
    ∃ m, (parserError p (notConstant context) : Except String α) = .error m ∧
      ConstReport .unread m := by
  obtain ⟨position, same⟩ := message_eq p (notConstant context)
  refine ⟨_, rfl, ?_⟩
  rw [same]
  exact notConstant_unread context position

theorem stuck_unread (context : String) : ConstReport .unread (notConstant context) := by
  have unread := notConstant_unread context ""
  rwa [String.empty_append] at unread

/-! ### Operands -/

theorem readsConstant_token {p : Parser} {c : IntConstant} (reads : ReadsConstant p c) :
    p.current.type = .intLiteral ∧ p.current.longValue = wrap64 c.digits.value := by
  obtain ⟨l, t, ends, start, read⟩ := reads
  by_cases short : c.Short
  · obtain ⟨large, small⟩ := Literals.nextToken_short ends short start
    by_cases tooLarge : IntConstant.TooLarge c.isUnsigned c.longs c.digits.value
    · obtain ⟨m, failed⟩ := large tooLarge
      cases failed.symm.trans read
    · obtain ⟨tok, read', type, value, -⟩ := small tooLarge
      cases read'.symm.trans read
      exact ⟨type, value⟩
  · obtain ⟨large, small⟩ := Literals.nextToken_long ends short start
    by_cases overflow : 2 ^ 63 ≤ c.digits.readValue
    · obtain ⟨m, failed⟩ := large overflow
      cases failed.symm.trans read
    · obtain ⟨tok, l', d, rest, read', left, hex⟩ := small (Nat.lt_of_not_le overflow)
      cases read'.symm.trans read
      have other := ends.not_hex d (by rw [show t = d :: rest from left]; rfl)
      cases hex.symm.trans other

section Reading

variable {rules : TypeRules} {context : String} {self : ConstReader}

variable (context self) in
/-- An operand is read as what it is taken for. -/
theorem evalConstPrimary_operand {p p' : Parser} {a : Operand}
    (operand : ConstOperand rules p a p') (U : ConstReader) :
    (constExprs rules context).Ends ConstReport (evalConstPrimary rules context self U) p a.read
      p' := by
  cases operand with
  | integer c reads next =>
    obtain ⟨type, value⟩ := readsConstant_token reads
    refine ⟨p', ?_, rfl⟩
    simp only [evalConstPrimary, type, next, value]
    rfl
  | character byte type value next =>
    refine ⟨p', ?_, rfl⟩
    simp only [evalConstPrimary, type, next, value]
    rfl
  | enumerator type found next =>
    refine ⟨p', ?_, rfl⟩
    simp only [evalConstPrimary, type, found, next]
    rfl
  | size type read =>
    refine ⟨p', ?_, rfl⟩
    simp only [evalConstPrimary, type, read]

theorem constOperand_type {p p' : Parser} {a : Operand} (operand : ConstOperand rules p a p') :
    constUnaryOp p.current.type = none := by
  cases operand with
  | integer c reads => rw [(readsConstant_token reads).1]; rfl
  | character byte type | enumerator type | size type => rw [type]; rfl

theorem constUnaryOp_token (op : UnaryOp) : constUnaryOp (unaryToken op) = some op := by
  cases op <;> rfl

theorem evalConstUnaryRounds_atom {p p' : Parser} {a : Operand}
    (operand : ConstOperand rules p a p') (n : Nat) :
    (constExprs rules context).Ends ConstReport
      (evalConstUnaryRounds rules context self (n + 1)) p a.read p' := by
  have read := evalConstPrimary_operand context self operand
    (evalConstUnaryRounds rules context self n)
  unfold Ladder.Ends Ladder.Gives at read ⊢
  rw [evalConstUnaryRounds, constOperand_type operand]
  exact read

theorem evalConstUnaryRounds_prefix {op : UnaryOp} {p p' q : Parser} {n : Nat}
    {o : Except Fault Int} (type : p.current.type = unaryToken op) (next : p.next = .ok p')
    (read : (constExprs rules context).Ends ConstReport (evalConstUnaryRounds rules context self n)
      p' o q) :
    (constExprs rules context).Ends ConstReport (evalConstUnaryRounds rules context self (n + 1)) p
      (o.map (longUnary op)) q := by
  have unary : constUnaryOp p.current.type = some op := by
    rw [type]
    exact constUnaryOp_token op
  cases o with
  | ok v =>
    obtain ⟨t, read, settled⟩ := read
    refine ⟨t, ?_, settled⟩
    simp only [evalConstUnaryRounds, unary, next, bind, Except.bind, read]
  | error f =>
    obtain ⟨m, failed, report⟩ := read
    refine ⟨m, ?_, report⟩
    simp only [evalConstUnaryRounds, unary, next, bind, Except.bind, failed]

variable (context self) in
/-- A cast is read as its operand. -/
theorem evalConstUnaryRounds_cast {p p₁ p₂ p' : Parser} {t : CType}
    (type : p.current.type = .lparen) (next : p.next = .ok p₁) (starts : startsCastType p₁ = true)
    (typed : rules.parseTypeName p₁ = .ok (t, p₂)) (closed : parserExpect p₂ .rparen = .ok p')
    (n : Nat) :
    evalConstUnaryRounds rules context self (n + 1) p =
      evalConstUnaryRounds rules context self n p' := by
  simp only [evalConstUnaryRounds, type, constUnaryOp, evalConstPrimary, next, bind, Except.bind,
    starts, if_true, typed, closed]

/-- Where the parser takes no type name for one, it reads an expression. -/
theorem evalConstUnaryRounds_inside {p p₁ p₂ p₃ : Parser} {o : Except Fault Int}
    (type : p.current.type = .lparen) (next : p.next = .ok p₁) (noType : startsCastType p₁ = false)
    (read : (constExprs rules context).Ends ConstReport self p₁ o p₂)
    (closed : p₂.current.type = .rparen) (last : p₂.next = .ok p₃) (n : Nat) :
    (constExprs rules context).Ends ConstReport (evalConstUnaryRounds rules context self (n + 1)) p o
      p₃ := by
  cases o with
  | ok v =>
    obtain ⟨t, read, settled⟩ := read
    obtain rfl : t = p₂ := settled
    refine ⟨p₃, ?_, rfl⟩
    have expected := parserExpect_ok closed last
    simp only [evalConstUnaryRounds, type, constUnaryOp, evalConstPrimary, next, bind, Except.bind,
      noType, Bool.false_eq_true, if_false, read, expected]
  | error f =>
    obtain ⟨m, failed, report⟩ := read
    refine ⟨m, ?_, report⟩
    simp only [evalConstUnaryRounds, type, constUnaryOp, evalConstPrimary, next, bind, Except.bind,
      noType, Bool.false_eq_true, if_false, failed]

theorem evalConstConditional_error {p : Parser} {m : String}
    (failed : evalConstUnary rules context self p = .error m) :
    evalConstConditional rules context self p = .error m := by
  simp only [evalConstConditional, evalConstLogicalOr, evalConstLogicalAnd, evalConstBitwiseOr,
    evalConstBitwiseXor, evalConstBitwiseAnd, evalConstEquality, evalConstRelational,
    evalConstShift, evalConstAdditive, evalConstMultiplicative, constLevel, chain, failed, bind,
    Except.bind]

variable (rules context) in
/-- `_Bool` and the keywords of tagged types start no constant expression. -/
theorem type_is_no_expression {p : Parser} (starts : startsSizeofType p = true)
    (unknown : startsCastType p = false) (rounds : Nat) :
    ∃ m, (constExprs rules context).whole (notConstant context) rounds p = .error m ∧
      ConstReport .unread m := by
  cases rounds with
  | zero => exact ⟨_, rfl, stuck_unread context⟩
  | succ n =>
    obtain ⟨m, error, report⟩ := parserError_unread (Int × Parser) p context
    refine ⟨m, evalConstConditional_error ?_, report⟩
    rw [startsSizeofType, unknown, Bool.false_or] at starts
    split at starts
    case h_5 => cases starts
    all_goals
      rename_i type
      simp only [evalConstUnary, evalConstUnaryRounds, evalConstPrimary, type, constUnaryOp]
      exact error

theorem castUnknown_error {p p₁ : Parser} (type : p.current.type = .lparen)
    (next : p.next = .ok p₁) (starts : startsSizeofType p₁ = true)
    (unknown : startsCastType p₁ = false) (rounds n : Nat) :
    ∃ m, evalConstUnaryRounds rules context
      ((constExprs rules context).whole (notConstant context) rounds) (n + 1) p = .error m ∧
        ConstReport .unread m := by
  obtain ⟨m, failed, report⟩ := type_is_no_expression rules context starts unknown rounds
  refine ⟨m, ?_, report⟩
  simp only [evalConstUnaryRounds, type, constUnaryOp, evalConstPrimary, next, bind, Except.bind,
    unknown, Bool.false_eq_true, if_false, failed]

end Reading

theorem divideLong_run {op : BinaryOp} {a b : Int} (p : Parser) :
    applyConstOp p op a b =
      if isDivision op = true ∧ b = 0 then
        parserError p "error: division by zero in constant expression"
      else .ok (longBinary op a b) := by
  have same : (op = .div ∨ op = .mod) ↔ isDivision op = true := by simp [isDivision]
  simp only [applyConstOp, same]

theorem constWord_token {rules : TypeRules} {p p' : Parser}
    {w : Precedence.Word Operand Prefix BinaryOp} (word : ConstWord rules p w p')
    (follows : w.Follows) :
    (∃ op, w = .binary op ∧ p.current.type = binaryToken op) ∨
      (w = .closeParen ∧ p.current.type = .rparen) ∨
      (w = .question ∧ p.current.type = .question) ∨ (w = .colon ∧ p.current.type = .colon) := by
  cases word with
  | atom | unary | cast | openParen => cases follows
  | binary op type => exact .inl ⟨op, rfl, type⟩
  | closeParen type => exact .inr (.inl ⟨rfl, type⟩)
  | question type => exact .inr (.inr (.inl ⟨rfl, type⟩))
  | colon type => exact .inr (.inr (.inr ⟨rfl, type⟩))

theorem constOperator_punctuator {k : Nat} {type : TokenType}
    (punctuator : type = .rparen ∨ type = .question ∨ type = .colon) :
    constOperator k type = none := by
  match k with
  | 0 | 1 | 2 | 3 | 4 | 5 | 6 | 7 | 8 | 9 | 10 | _ + 11 =>
    rcases punctuator with rfl | rfl | rfl <;> rfl

theorem constExprs_judged (rules : TypeRules) (context : String) :
    (constExprs rules context).Judged longTrial
      (fun self n => evalConstUnaryRounds rules context self n) (notConstant context)
      ConstReport where
  settle_settle _ := rfl
  size_settle _ := Nat.le_refl _
  step_settled _ := ⟨rfl, rfl⟩
  step_size step := step.shorter
  step_binary := by
    intro p op p' step
    cases step.word with
    | binary op type next =>
      have operator : constOperator (precedence op) p.current.type = some op := by
        rw [type]
        exact constOperator_binary op
      simp only [constExprs, nextConstOp, grammar, operator, next]
      rfl
  step_other := by
    intro p w p' k step follows other
    have none : constOperator k p.current.type = none := by
      obtain ⟨op, rfl, type⟩ | ⟨-, type⟩ | ⟨-, type⟩ | ⟨-, type⟩ := constWord_token step.word follows
      · rw [type]
        exact constOperator_other (w := .binary op) trivial fun op' same => by
          cases same
          exact other op rfl
      · exact constOperator_punctuator (.inl type)
      · exact constOperator_punctuator (.inr (.inl type))
      · exact constOperator_punctuator (.inr (.inr type))
    simp only [constExprs, nextConstOp, none]
  step_asks := by
    intro p w p' step follows notQuestion
    change ¬ p.current.type = .question
    obtain ⟨op, -, type⟩ | ⟨-, type⟩ | ⟨question, -⟩ | ⟨-, type⟩ := constWord_token step.word follows
    · rw [type]
      cases op <;> decide
    · rw [type]
      decide
    · exact absurd question notQuestion
    · rw [type]
      decide
  chain := by
    intro k self pos le
    change k ≤ 10 at le
    interval_cases k <;> rfl
  apply_ok := by
    intro op a b w p value
    unfold longTrial divideLong at value
    change applyConstOp p op a b = _
    rw [divideLong_run]
    dsimp only at value
    split at value
    · cases value
    · rename_i other
      cases value
      exact if_neg other
  apply_error := by
    intro op a b f p value
    unfold longTrial divideLong at value
    dsimp only at value
    split at value
    · rename_i zero
      cases value
      obtain ⟨position, same⟩ := message_eq p "error: division by zero in constant expression"
      refine ⟨_, (divideLong_run p).trans (if_pos zero), position, same⟩
    · cases value
  operand _ _ := rfl
  atom := by
    intro self n p a p' step
    cases step.word with
    | atom operand => exact evalConstUnaryRounds_atom operand n
  refused := by
    intro rounds n p op p' f step refused
    cases step.word with
    | unary => cases refused
    | cast type next starts typed integer closed =>
      rename_i p₁ p₂ t u
      cases known : startsCastType p₁ with
      | true =>
        rw [known] at refused
        cases refused
      | false =>
        rw [known] at refused
        cases refused
        exact castUnknown_error type next starts known rounds n
  unary := by
    intro self n p op p' o q step accepted read
    cases step.word with
    | unary op type next => exact evalConstUnaryRounds_prefix type next read
    | cast type next starts typed integer closed =>
      rename_i p₁ p₂ t u
      cases known : startsCastType p₁ with
      | false =>
        rw [known] at accepted
        cases accepted
      | true =>
        have same := evalConstUnaryRounds_cast context self type next known typed closed n
        have value : o.map (longTrial.unary (.cast u true)) = o := by cases o <;> rfl
        rw [value]
        unfold Ladder.Ends Ladder.Gives at read ⊢
        rw [same]
        exact read
  paren := by
    intro self n p p₁ o p₂ p₃ opened inside closed
    cases opened.word with
    | openParen type next noType =>
      cases closed.word with
      | closeParen type' next' =>
        have noCast : startsCastType p₁ = false := by
          rw [startsSizeofType, Bool.or_eq_false_iff] at noType
          exact noType.1
        exact evalConstUnaryRounds_inside type next noCast inside type' next' n
  cond_error := by
    intro self p m failed
    change evalConstConditional rules context self p = _
    change evalConstLogicalOr rules context self p = _ at failed
    simp only [evalConstConditional, failed, bind, Except.bind]
  plain := by
    intro self p v p' cond stop
    obtain ⟨t, cond, rfl⟩ := cond
    exact ⟨t, evalConstConditional_plain cond stop, rfl⟩
  then_error := by
    intro self p c p₁ p₂ m cond asked failed
    obtain ⟨t, cond, settled⟩ := cond
    obtain rfl : t = p₁ := settled
    change evalConstLogicalOr rules context self p = _ at cond
    change evalConstConditional rules context self p = _
    cases asked.word with
    | question type next =>
      simp only [evalConstConditional, cond, bind, Except.bind, type, ne_eq, not_true_eq_false,
        if_false, next, failed]
  else_error := by
    intro self p c p₁ p₂ v p₃ p₄ m cond asked thenRead colon failed
    obtain ⟨t, cond, settled⟩ := cond
    obtain rfl : t = p₁ := settled
    obtain ⟨t, thenRead, settled⟩ := thenRead
    obtain rfl : t = p₃ := settled
    change evalConstLogicalOr rules context self p = _ at cond
    change evalConstConditional rules context self p = _
    cases asked.word with
    | question type next =>
      cases colon.word with
      | colon type' next' =>
        have expected := parserExpect_ok type' next'
        simp only [evalConstConditional, cond, bind, Except.bind, type, ne_eq, not_true_eq_false,
          if_false, next, thenRead, expected, failed]
  conditional := by
    intro self p c p₁ p₂ v p₃ p₄ w p₅ cond asked thenRead colon elseRead
    obtain ⟨t, cond, settled⟩ := cond
    obtain rfl : t = p₁ := settled
    obtain ⟨t, thenRead, settled⟩ := thenRead
    obtain rfl : t = p₃ := settled
    obtain ⟨t, elseRead, settled⟩ := elseRead
    obtain rfl : t = p₅ := settled
    cases asked.word with
    | question type next =>
      cases colon.word with
      | colon type' next' =>
        exact ⟨t, evalConstConditional_asks cond type next thenRead type' next' elseRead, rfl⟩

/-- The evaluator of constant expressions gives the signed 64-bit value of an expression, or a
message for the first fault. -/
theorem evalConstExpr_ends (rules : TypeRules) (context : String) {p q : Parser} {e : CExpr}
    (derives : (constExprs rules context).Derives 0 p e q)
    (stops : (constExprs rules context).Stops 0 q) :
    (constExprs rules context).Ends ConstReport (evalConstExpr rules context) p (reading e) q :=
  Ladder.ends_of_derives (constExprs_judged rules context) derives stops (Nat.lt_succ_self _)

end ClaudeC99.Constant
