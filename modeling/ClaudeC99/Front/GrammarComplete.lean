import ClaudeC99.Front.GrammarSound
import Mathlib.Order.Filter.AtTopBot.Basic

/-! The parser reads every expression of the grammar. -/

namespace ClaudeC99.Expressions

open Filter (Eventually atTop)
open Front (TokenType FuncSig)
open Precedence (Reader)
open StateExcept (bind_eq_ok)

/-- The operators with their levels. -/
def operatorTable : List (Nat × TokenType × BinaryOp) :=
  [(0, .star, .mul), (0, .slash, .div), (0, .percent, .mod), (1, .plus, .add), (1, .minus, .sub),
    (2, .leftShift, .shiftLeft), (2, .rightShift, .shiftRight), (3, .lt, .lt), (3, .le, .le),
    (3, .gt, .gt), (3, .ge, .ge), (4, .eq, .eq), (4, .ne, .ne), (5, .ampersand, .bitAnd),
    (6, .caret, .bitXor), (7, .pipe, .bitOr), (8, .andAnd, .logicalAnd), (9, .orOr, .logicalOr)]

theorem mem_operatorTable {k : Nat} {t : TokenType} {op : BinaryOp}
    (h : levelOperator k t = some op) : (k, t, op) ∈ operatorTable := by
  unfold levelOperator at h
  split at h
  · unfold Front.multiplicativeToken at h
    split at h <;> cases h <;> decide
  · unfold Front.additiveToken at h
    split at h <;> cases h <;> decide
  · unfold Front.shiftToken at h
    split at h <;> cases h <;> decide
  · unfold Front.relationalToken at h
    split at h <;> cases h <;> decide
  · unfold Front.equalityToken at h
    split at h <;> cases h <;> decide
  all_goals first
    | cases h
    | (obtain ⟨rfl, same⟩ := Option.ite_none_right_eq_some.mp h
       cases same
       decide)

/-- A token that goes on with a postfix expression. -/
def isSuffix (t : TokenType) : Bool :=
  t ∈ [TokenType.lparen, .lbracket, .dot, .arrow, .increment, .decrement]

/-- A token that may stand behind an operand, and is no operator. -/
def isCloser (t : TokenType) : Bool :=
  isAssignment t || t ∈ [TokenType.question, .colon, .rparen, .rbracket, .rbrace, .comma]

/-- No token of this type goes on with an operand of the `k` tightest levels. -/
def EndsOperand (k : Nat) (t : TokenType) : Prop :=
  isSuffix t = false ∧ ∀ j < k, levelOperator j t = none

/-- No token of this type goes on with an expression of the level. -/
def Stops : Level → TokenType → Prop
  | .operators k, t => EndsOperand k t
  | .conditional, t => EndsOperand 10 t ∧ t ≠ .question
  | .assignment, t | .initializer, t | .element, t =>
    EndsOperand 10 t ∧ t ≠ .question ∧ isAssignment t = false
  | .expression, t | .list, t | .elements, t =>
    EndsOperand 10 t ∧ t ≠ .question ∧ isAssignment t = false ∧ t ≠ .comma
  | _, t => isSuffix t = false

theorem EndsOperand.mono {j k : Nat} {t : TokenType} (h : EndsOperand k t) (le : j ≤ k) :
    EndsOperand j t :=
  ⟨h.1, fun i lt => h.2 i (lt.trans_le le)⟩

theorem not_operator_of_closer {t : TokenType} (closer : isCloser t = true) (k : Nat) :
    levelOperator k t = none := by
  have facts : ∀ x ∈ operatorTable, isCloser x.2.1 = false := by decide
  cases found : levelOperator k t with
  | none => rfl
  | some op => exact absurd closer (by simp [facts _ (mem_operatorTable found)])

theorem endsOperand_of_closer {t : TokenType} (closer : isCloser t = true) (k : Nat) :
    EndsOperand k t := by
  refine ⟨?_, fun j _ => not_operator_of_closer closer j⟩
  cases t <;> first
    | rfl
    | cases closer

theorem endsOperand_of_operator {k : Nat} {t : TokenType} {op : BinaryOp}
    (operator : levelOperator k t = some op) : EndsOperand k t := by
  have facts : ∀ x ∈ operatorTable, isSuffix x.2.1 = false ∧
      ∀ j ∈ List.range x.1, levelOperator j x.2.1 = none := by decide
  obtain ⟨suffix, looser⟩ := facts _ (mem_operatorTable operator)
  exact ⟨suffix, fun j lt => looser j (List.mem_range.mpr lt)⟩

theorem isCloser_of_isAssignment {t : TokenType} (op : isAssignment t = true) :
    isCloser t = true := by
  simp [isCloser, op]

theorem stops_at {c : Context} {s : Tokens} {t : TokenType} (at_ : c.type s = t)
    (closer : t ∈ [TokenType.colon, .rparen, .rbracket, .rbrace, .comma]) :
    Stops .assignment (c.type s) := by
  rw [at_]
  refine ⟨endsOperand_of_closer ?_ 10, ?_, ?_⟩
  · exact (Bool.or_eq_true ..).mpr (.inr (by simp_all))
  · rintro rfl
    simp at closer
  · simp at closer
    rcases closer with rfl | rfl | rfl | rfl | rfl <;> rfl

section reads

variable {c : Context} {α β : Type} {s : Tokens}

/-- Read in as many rounds as are needed. -/
def Reads (c : Context) (P : Callees → Reader Tokens String α) (s : Tokens) (r : α × Tokens) :
    Prop := ∀ᶠ n in atTop, P (parsers c n) s = .ok r

/-- A loop that ends after some rounds. -/
def Loops (c : Context) (P : Callees → Nat → Reader Tokens String α) (s : Tokens)
    (r : α × Tokens) : Prop :=
  ∃ rounds, ∀ᶠ n in atTop, ∀ m, rounds ≤ m → P (parsers c n) m s = .ok r

theorem rounds_parsers (n : Nat) : (parsers c n).rounds = n := by
  cases n <;> rfl

theorem Loops.reads {P : Callees → Nat → Reader Tokens String α} {r : α × Tokens}
    (h : Loops c P s r) : Reads c (fun self => P self self.rounds) s r := by
  obtain ⟨rounds, h⟩ := h
  filter_upwards [h, Filter.eventually_ge_atTop rounds] with n run enough
  rw [rounds_parsers]
  exact run n enough

/-- What a function reads is read where it is called. -/
theorem Reads.called {P get : Callees → Reader Tokens String α} {r : α × Tokens}
    (h : Reads c P s r) (calls : ∀ n, get (parsers c (n + 1)) = P (parsers c n)) :
    Reads c get s r := by
  obtain ⟨N, h⟩ := Filter.eventually_atTop.mp h
  refine Filter.eventually_atTop.mpr ⟨N + 1, fun n le => ?_⟩
  obtain ⟨m, rfl⟩ : ∃ m, n = m + 1 := ⟨n - 1, by omega⟩
  rw [calls]
  exact h m (by omega)

end reads

/-- A token that a postfix expression may start with. -/
def isOperandStart (t : TokenType) : Bool :=
  t ∈ [TokenType.intLiteral, .floatLiteral, .doubleLiteral, .stringLiteral, .charLiteral,
    .identifier, .lparen]

/-- A token that an expression may start with. -/
def isStart (t : TokenType) : Bool :=
  isOperandStart t || t ∈ [TokenType.sizeof, .ampersand, .increment, .decrement, .star, .plus,
    .minus, .bang, .tilde]

/-- A token that the level may start with. -/
def Begins : Level → TokenType → Prop
  | .arguments, t => isStart t = true ∨ t = .rparen
  | .braces, t => t = .lbrace
  | .initializer, t => isStart t = true ∨ t = .lbrace
  | .element, t | .elements, t => isStart t = true ∨ t ∈ [TokenType.lbrace, .dot, .lbracket]
  | .literal _, _ => True
  | .primary, t | .postfixed, t => isOperandStart t = true
  | _, t => isStart t = true

section starts

variable {c : Context} {l : Level} {s s' : Tokens} {es : List Expr}

theorem isStart_prefixNode {t : TokenType} {node : Expr → Expr} (op : prefixNode t = some node) :
    isStart t = true := by
  unfold prefixNode at op
  split at op <;> first
    | rfl
    | cases op

theorem operandStart_plain {t : TokenType} (start : isOperandStart t = true) :
    t ≠ .sizeof ∧ t ≠ .ampersand ∧ prefixNode t = none := by
  cases t <;> first
    | exact ⟨by decide, by decide, rfl⟩
    | cases start

theorem ne_rbrace_of_begins {t : TokenType} (begins : Begins .element t) : t ≠ .rbrace := by
  rintro rfl
  simp [Begins, isStart, isOperandStart] at begins

theorem Derives.begins (h : Derives c l es s s') : Begins l (c.type s) := by
  induction h with
  | func token | vaStart token | vaEnd token | vaCopy token | vaArg token | «variable» token
  | call token | callVariable token => simp [Begins, token.1, isOperandStart]
  | prefixed op => exact isStart_prefixNode op
  | compound ahead =>
    rw [(compoundLiteralAhead_some ahead).1.1]
    rfl
  | cast ahead =>
    rw [ahead.1]
    rfl
  | ofPostfix _ ih => simp_all [Begins, isStart]
  | ofInitializer _ ih => exact ih.imp_right fun opened => by simp [opened]
  | initBraces _ ih => exact .inr ih
  | record | array | scalar => exact trivial
  | _ => first
    | assumption
    | exact Or.inl ‹_›
    | (simp only [Begins, *]
       decide)

/-- The levels below assignments whose words are an expression. -/
def Level.isOperand : Level → Bool
  | .primary | .postfixed | .unary | .operators _ | .conditional => true
  | _ => false

/-- An operand that starts with an identifier before an assignment operator is the identifier. -/
theorem Derives.ends (h : Derives c l es s s') (operand : l.isOperand = true)
    (token : c.type s = .identifier) (op : isAssignment (c.type s.tail) = true) :
    s' = s.tail ∧ ∀ e ∈ es, isTarget e = true → e = .varRef (c.name s) := by
  induction h with
  | compound ahead =>
    rw [(compoundLiteralAhead_some ahead).1.1] at token
    cases token
  | string other =>
    rw [other] at token
    cases token
  | binary _ operator _ ihLeft =>
    rw [(ihLeft rfl token op).1] at operator
    rw [not_operator_of_closer (isCloser_of_isAssignment op)] at operator
    cases operator
  | ofPrimary _ _ ih | ofPostfix _ ih | ofUnary _ _ ih | climb _ ih | ofOperators _ ih =>
    exact ih rfl token op
  | _ => first
    | exact absurd operand Bool.false_ne_true
    | exact ⟨rfl, by simp [isTarget]⟩
    | simp_all [isAssignment, Level.isOperand, prefixNode, Context.CastAhead]

end starts

section primary

variable {c : Context} {s s₁ s₂ s' : Tokens} {e : Expr} {es : List Expr}

theorem Reads.of {α : Type} {P : Callees → Reader Tokens String α} {r : α × Tokens}
    (h : ∀ self, P self s = .ok r) : Reads c P s r :=
  Filter.Eventually.of_forall fun n => h (parsers c n)

theorem parsePrimary_identifier {self : Callees} (token : c.type s = .identifier) :
    parsePrimary c self s = parseIdentifier c self s := by
  simp only [parsePrimary, show (c.current s).type = .identifier from token]

theorem parseIdentifier_enumConst {self : Callees} {ec : Front.EnumConst}
    (free : ∀ text ∈ Context.reserved, (c.current s).value ≠ text.toList)
    (found : (c.enumConsts.find? fun ec => ec.name = (c.current s).value) = some ec) :
    parseIdentifier c self s = .ok (.intLiteral (.dec ec.value) .int false, s.tail) := by
  simp only [Context.reserved, List.forall_mem_cons] at free
  obtain ⟨func, start, finish, copy, arg, -⟩ := free
  unfold parseIdentifier
  simp only [found]
  rw [if_neg func, if_neg start, if_neg finish, if_neg copy, if_neg arg]

theorem parsePrimary_name {self : Callees} (token : c.IsName s) :
    parsePrimary c self s = parseName c self s := by
  obtain ⟨identifier, free, noConst⟩ := token
  simp only [Context.reserved, List.forall_mem_cons] at free
  obtain ⟨func, start, finish, copy, arg, -⟩ := free
  rw [parsePrimary_identifier identifier]
  unfold parseIdentifier
  simp only [noConst]
  rw [if_neg func, if_neg start, if_neg finish, if_neg copy, if_neg arg]

theorem reads_vaStart {ap last : Expr} (token : c.Spells s "__builtin_va_start")
    (opened : c.type s.tail = .lparen) (variadic : c.currentFuncIsVariadic = true)
    (first : Reads c Callees.assignment s.tail.tail (ap, s₁)) (comma : c.type s₁ = .comma)
    (second : Reads c Callees.assignment s₁.tail (last, s₂)) (closed : c.type s₂ = .rparen) :
    Reads c (parsePrimary c) s (.vaStart ap last, s₂.tail) := by
  filter_upwards [first, second] with n first second
  rw [parsePrimary_identifier token.1, parseIdentifier, token.2]
  exact parseVaStart_iff.mpr ⟨_, _, _, _, opened, variadic, first, comma, second, closed, rfl, rfl⟩

theorem reads_vaEnd {ap : Expr} (token : c.Spells s "__builtin_va_end")
    (opened : c.type s.tail = .lparen) (only : Reads c Callees.assignment s.tail.tail (ap, s₁))
    (closed : c.type s₁ = .rparen) : Reads c (parsePrimary c) s (.vaEnd ap, s₁.tail) := by
  filter_upwards [only] with n only
  rw [parsePrimary_identifier token.1, parseIdentifier, token.2]
  exact parseVaEnd_iff.mpr ⟨_, _, opened, only, closed, rfl, rfl⟩

theorem reads_vaCopy {dst src : Expr} (token : c.Spells s "__builtin_va_copy")
    (opened : c.type s.tail = .lparen) (first : Reads c Callees.assignment s.tail.tail (dst, s₁))
    (comma : c.type s₁ = .comma) (second : Reads c Callees.assignment s₁.tail (src, s₂))
    (closed : c.type s₂ = .rparen) : Reads c (parsePrimary c) s (.vaCopy dst src, s₂.tail) := by
  filter_upwards [first, second] with n first second
  rw [parsePrimary_identifier token.1, parseIdentifier, token.2]
  exact parseVaCopy_iff.mpr ⟨_, _, _, _, opened, first, comma, second, closed, rfl, rfl⟩

theorem reads_vaArg {ap : Expr} {t : CType} (token : c.Spells s "__builtin_va_arg")
    (opened : c.type s.tail = .lparen) (first : Reads c Callees.assignment s.tail.tail (ap, s₁))
    (comma : c.type s₁ = .comma) (second : c.parseTypeName s₁.tail = .ok (t, s₂))
    (closed : c.type s₂ = .rparen) : Reads c (parsePrimary c) s (.vaArg ap t, s₂.tail) := by
  filter_upwards [first] with n first
  rw [parsePrimary_identifier token.1, parseIdentifier, token.2]
  exact parseVaArg_iff.mpr ⟨_, _, _, _, opened, first, comma, second, closed, rfl, rfl⟩

theorem reads_func {func : Preprocessor.Text} (token : c.Spells s "__func__")
    (inside : c.currentFuncName = some func) :
    Reads c (parsePrimary c) s (.stringLiteral (bytesOf func), s.tail) := by
  refine .of fun self => ?_
  rw [parsePrimary_identifier token.1, parseIdentifier, token.2, inside]
  rfl

theorem reads_call {sig : FuncSig} (token : c.IsName s) (opened : c.type s.tail = .lparen)
    (known : Front.parserFindFunction c.funcs (c.name s) = some sig)
    (inner : Reads c (parseArguments c) s.tail.tail (es, s')) (accepts : Accepts sig es.length) :
    Reads c (parsePrimary c) s (.functionCall (c.name s) sig.returnType es, s') := by
  filter_upwards [inner] with n inner
  rw [parsePrimary_name token]
  exact parseName_iff.mpr (.inr ⟨opened, es, inner, .inl ⟨sig, known, accepts, rfl⟩⟩)

theorem reads_callVariable (token : c.IsName s) (opened : c.type s.tail = .lparen)
    (unknown : Front.parserFindFunction c.funcs (c.name s) = none)
    (inner : Reads c (parseArguments c) s.tail.tail (es, s')) :
    Reads c (parsePrimary c) s (.indirectCall (.varRef (c.name s)) es, s') := by
  filter_upwards [inner] with n inner
  rw [parsePrimary_name token]
  exact parseName_iff.mpr (.inr ⟨opened, es, inner, .inr ⟨unknown, rfl⟩⟩)

theorem reads_paren (opened : c.type s = .lparen)
    (inner : Reads c Callees.expression s.tail (e, s')) (closed : c.type s' = .rparen) :
    Reads c (parsePrimary c) s (e, s'.tail) := by
  filter_upwards [inner] with n inner
  simp only [parsePrimary, show (c.current s).type = .lparen from opened, bind_eq_ok, Prod.exists,
    expect_iff]
  exact ⟨_, _, inner, _, _, ⟨closed, rfl, rfl⟩, rfl⟩

end primary

section loops

variable {c : Context} {α β : Type} {s s₁ s₂ s' : Tokens} {e base : Expr} {es : List Expr}
  {r : Expr × Tokens} {rs : List Expr × Tokens}

theorem Loops.stop {P : Callees → Nat → Reader Tokens String α} {r : α × Tokens}
    (h : ∀ self m, P self (m + 1) s = .ok r) : Loops c P s r := by
  refine ⟨1, .of_forall fun n m le => ?_⟩
  obtain ⟨m, rfl⟩ : ∃ k, m = k + 1 := ⟨m - 1, by omega⟩
  exact h _ m

theorem Loops.step {P : Callees → Nat → Reader Tokens String α}
    {Q : Callees → Nat → Reader Tokens String α} {r : α × Tokens} (rest : Loops c Q s₁ r)
    (step : ∀ᶠ n in atTop, ∀ m, Q (parsers c n) m s₁ = .ok r → P (parsers c n) (m + 1) s = .ok r) :
    Loops c P s r := by
  obtain ⟨rounds, rest⟩ := rest
  refine ⟨rounds + 1, ?_⟩
  filter_upwards [rest, step] with n rest step m le
  obtain ⟨m, rfl⟩ : ∃ k, m = k + 1 := ⟨m - 1, by omega⟩
  exact step m (rest m (by omega))

/-- The first argument and those behind it. -/
def argumentList (c : Context) (self : Callees) : Reader Tokens String (List Expr) := fun ts => do
  let (e, ts) ← self.assignment ts
  argumentsLoop c self self.rounds [e] ts

/-- The first element of a list in braces and those behind it. -/
def elementList (c : Context) (self : Callees) : Reader Tokens String (List Expr) := fun ts => do
  let (e, ts) ← parseInitializerElement c self ts
  elementsLoop c self self.rounds [e] ts

theorem loops_arguments_stop (other : c.type s ≠ .comma) :
    Loops c (fun self n => argumentsLoop c self n es) s (es, s) :=
  .stop fun _ _ => if_neg other

theorem loops_arguments_step (comma : c.type s = .comma)
    (last : Reads c Callees.assignment s.tail (e, s₁))
    (rest : Loops c (fun self n => argumentsLoop c self n (es ++ [e])) s₁ rs) :
    Loops c (fun self n => argumentsLoop c self n es) s rs := by
  refine rest.step ?_
  filter_upwards [last] with n last m run
  rw [argumentsLoop, if_pos comma, last]
  exact run

theorem reads_arguments (inner : Reads c (argumentList c) s (es, s₁))
    (start : isStart (c.type s) = true) (closed : c.type s₁ = .rparen) : Reads c (parseArguments c) s (es, s₁.tail) := by
  filter_upwards [inner] with n inner
  simp only [argumentList, bind_eq_ok, Prod.exists] at inner
  obtain ⟨first, s₂, read, rest⟩ := inner
  refine parseArguments_iff.mpr (.inr ⟨fun same => ?_, first, s₂, s₁, read, rest, closed, rfl⟩)
  rw [same] at start
  cases start

theorem loops_suffixes_stop (other : isSuffix (c.type s) = false) :
    Loops c (fun self n => parsePostfixSuffixes c self n base) s (base, s) := by
  refine .stop fun self m => ?_
  unfold parsePostfixSuffixes
  split <;> first
    | rfl
    | simp_all [isSuffix]

theorem loops_callThrough (opened : c.type s = .lparen)
    (inner : Reads c (parseArguments c) s.tail (es, s₁))
    (rest : Loops c (fun self n => parsePostfixSuffixes c self n (.indirectCall base es)) s₁ r) :
    Loops c (fun self n => parsePostfixSuffixes c self n base) s r := by
  refine rest.step ?_
  filter_upwards [inner] with n inner m run
  simp only [parsePostfixSuffixes, opened, inner]
  exact run

theorem loops_subscript (fits : isSubscriptBase base = true) (opened : c.type s = .lbracket)
    (index : Reads c Callees.expression s.tail (e, s₁)) (closed : c.type s₁ = .rbracket)
    (rest : Loops c (fun self n => parsePostfixSuffixes c self n (.arrayIndex base e)) s₁.tail r) :
    Loops c (fun self n => parsePostfixSuffixes c self n base) s r := by
  refine rest.step ?_
  filter_upwards [index] with n index m run
  simp only [parsePostfixSuffixes, opened, fits, ↓reduceIte, bind_eq_ok, Prod.exists, expect_iff]
  exact ⟨_, _, index, _, _, ⟨closed, rfl, rfl⟩, run⟩

theorem loops_member (dot : c.type s = .dot) (field : c.type s.tail = .identifier)
    (rest : Loops c (fun self n =>
      parsePostfixSuffixes c self n (.memberAccess base (c.name s.tail))) s.tail.tail r) :
    Loops c (fun self n => parsePostfixSuffixes c self n base) s r := by
  refine rest.step (.of_forall fun n m run => ?_)
  simp only [parsePostfixSuffixes, dot, bind_eq_ok, Prod.exists, expect_iff]
  exact ⟨_, _, ⟨field, rfl, rfl⟩, run⟩

theorem loops_arrow (arrow : c.type s = .arrow) (field : c.type s.tail = .identifier)
    (rest : Loops c (fun self n =>
      parsePostfixSuffixes c self n (.arrowAccess base (c.name s.tail))) s.tail.tail r) :
    Loops c (fun self n => parsePostfixSuffixes c self n base) s r := by
  refine rest.step (.of_forall fun n m run => ?_)
  simp only [parsePostfixSuffixes, arrow, bind_eq_ok, Prod.exists, expect_iff]
  exact ⟨_, _, ⟨field, rfl, rfl⟩, run⟩

theorem loops_increment (op : c.type s = .increment)
    (rest : Loops c (fun self n =>
      parsePostfixSuffixes c self n (.postfixIncDec .increment base)) s.tail r) :
    Loops c (fun self n => parsePostfixSuffixes c self n base) s r := by
  refine rest.step (.of_forall fun n m run => ?_)
  simp only [parsePostfixSuffixes, op]
  exact run

theorem loops_decrement (op : c.type s = .decrement)
    (rest : Loops c (fun self n =>
      parsePostfixSuffixes c self n (.postfixIncDec .decrement base)) s.tail r) :
    Loops c (fun self n => parsePostfixSuffixes c self n base) s r := by
  refine rest.step (.of_forall fun n m run => ?_)
  simp only [parsePostfixSuffixes, op]
  exact run

theorem loops_binary_stop {k : Nat} (other : levelOperator k (c.type s) = none) :
    Loops c (fun self n => binaryLoop c (levelOperator k) (levelReader c self k) n e) s (e, s) := by
  refine .stop fun self m => ?_
  simp only [binaryLoop, other]

theorem loops_binary_step {k : Nat} {op : BinaryOp} {right : Expr}
    (operator : levelOperator k (c.type s) = some op)
    (last : Reads c (fun self => levelReader c self k) s.tail (right, s₁))
    (rest : Loops c (fun self n => binaryLoop c (levelOperator k) (levelReader c self k) n
      (.binaryOp op e right .void)) s₁ r) :
    Loops c (fun self n => binaryLoop c (levelOperator k) (levelReader c self k) n e) s r := by
  refine rest.step ?_
  filter_upwards [last] with n last m run
  simp only [binaryLoop, operator, last]
  exact run

theorem loops_comma_stop (other : c.type s ≠ .comma) :
    Loops c (fun self n => commaLoop c self n e) s (e, s) :=
  .stop fun _ _ => if_neg other

theorem loops_comma_step {right : Expr} (comma : c.type s = .comma)
    (last : Reads c (parseAssignmentExpression c) s.tail (right, s₁))
    (rest : Loops c (fun self n => commaLoop c self n (.comma e right)) s₁ r) :
    Loops c (fun self n => commaLoop c self n e) s r := by
  refine rest.step ?_
  filter_upwards [last] with n last m run
  rw [commaLoop, if_pos comma, last]
  exact run

theorem loops_elements_stop (other : c.type s ≠ .comma) :
    Loops c (fun self n => elementsLoop c self n es) s (es, s) :=
  .stop fun _ _ => if_neg other

theorem loops_elements_comma (comma : c.type s = .comma) (closed : c.type s.tail = .rbrace) :
    Loops c (fun self n => elementsLoop c self n es) s (es, s.tail) :=
  .stop fun _ _ => (if_pos comma).trans (if_pos closed)

theorem loops_elements_step (comma : c.type s = .comma) (more : c.type s.tail ≠ .rbrace)
    (last : Reads c (parseInitializerElement c) s.tail (e, s₁))
    (rest : Loops c (fun self n => elementsLoop c self n (es ++ [e])) s₁ rs) :
    Loops c (fun self n => elementsLoop c self n es) s rs := by
  refine rest.step ?_
  filter_upwards [last] with n last m run
  rw [elementsLoop, if_pos comma, if_neg more, last]
  exact run

theorem reads_braces (opened : c.type s = .lbrace) (more : c.type s.tail ≠ .rbrace)
    (inner : Reads c (elementList c) s.tail (es, s₁)) (closed : c.type s₁ = .rbrace) :
    Reads c (parseInitializer c) s (.initializerList es, s₁.tail) := by
  filter_upwards [inner] with n inner
  simp only [elementList, bind_eq_ok, Prod.exists] at inner
  obtain ⟨first, s₂, read, rest⟩ := inner
  exact parseInitializer_iff.mpr
    (.inr (.inr ⟨opened, more, first, s₂, es, s₁, read, rest, closed, rfl, rfl⟩))

end loops

section operators

variable {c : Context} {s s₁ s₂ s' : Tokens} {e e₁ e₂ e₃ : Expr} {r : Expr × Tokens}

theorem reads_primary (ahead : compoundLiteralAhead c s = .ok none)
    (base : Reads c (parsePrimary c) s (e, s₁))
    (rest : Loops c (fun self n => parsePostfixSuffixes c self n e) s₁ r) :
    Reads c (parsePostfix c) s r := by
  filter_upwards [base, rest.reads] with n base rest
  exact parsePostfix_iff.mpr ⟨_, _, rest, .inr ⟨ahead, base⟩⟩

theorem reads_compound {t : CType} (ahead : compoundLiteralAhead c s = .ok (some (t, s₁)))
    (base : Reads c (fun self => buildCompoundLiteral c self t) s₁ (e, s₂))
    (rest : Loops c (fun self n => parsePostfixSuffixes c self n e) s₂ r) :
    Reads c (parsePostfix c) s r := by
  filter_upwards [base, rest.reads] with n base rest
  exact parsePostfix_iff.mpr ⟨_, _, rest, .inl ⟨t, s₁, ahead, base⟩⟩

theorem reads_prefixed {node : Expr → Expr} (op : prefixNode (c.type s) = some node)
    (operand : Reads c Callees.unary s.tail (e, s')) :
    Reads c (parseUnary c) s (node e, s') := by
  filter_upwards [operand] with n operand
  exact parseUnary_iff.mpr (.inr (.inr (.inl ⟨node, e, op, operand, rfl⟩)))

theorem reads_addrOf (op : c.type s = .ampersand) (operand : Reads c Callees.unary s.tail (e, s'))
    (fits : isAddressable e = true) : Reads c (parseUnary c) s (.addrOf e, s') := by
  filter_upwards [operand] with n operand
  exact parseUnary_iff.mpr (.inr (.inl ⟨op, e, operand, fits, rfl⟩))

theorem reads_sizeofUnary (op : c.type s = .sizeof) (bare : c.type s.tail ≠ .lparen)
    (operand : Reads c Callees.unary s.tail (e, s')) :
    Reads c (parseUnary c) s (.sizeofExpr e, s') := by
  filter_upwards [operand] with n operand
  exact parseUnary_iff.mpr (.inl ⟨op, parseSizeof_iff.mpr (.inl ⟨bare, e, operand, rfl⟩)⟩)

theorem reads_sizeofExpr (op : c.type s = .sizeof) (opened : c.type s.tail = .lparen)
    (noType : c.startsTypeName s.tail.tail = false) (start : isStart (c.type s.tail.tail) = true)
    (operand : Reads c Callees.expression s.tail.tail (e, s₁)) (closed : c.type s₁ = .rparen) :
    Reads c (parseUnary c) s (.sizeofExpr e, s₁.tail) := by
  filter_upwards [operand] with n operand
  refine parseUnary_iff.mpr (.inl ⟨op, parseSizeof_iff.mpr (.inr (.inr
    ⟨opened, noType, fun same => ?_, e, s₁, operand, closed, rfl, rfl⟩))⟩)
  rw [same] at start
  cases start

theorem reads_ofPostfix (start : c.type s ≠ .sizeof ∧ c.type s ≠ .ampersand ∧
    prefixNode (c.type s) = none) (inner : Reads c (parsePostfix c) s r) :
    Reads c (parseUnary c) s r := by
  filter_upwards [inner] with n inner
  exact parseUnary_iff.mpr (.inr (.inr (.inr ⟨start.1, start.2.1, start.2.2, inner⟩)))

theorem reads_ofUnary
    (noCast : c.CastAhead s → ∃ t s₁, compoundLiteralAhead c s = .ok (some (t, s₁)))
    (inner : Reads c (parseUnary c) s r) : Reads c (parseCast c) s r := by
  filter_upwards [inner] with n inner
  exact parseCast_iff.mpr (.inl ⟨noCast, inner⟩)

theorem reads_cast {t : CType} (ahead : c.CastAhead s) (type : c.parseTypeName s.tail = .ok (t, s₁))
    (closed : c.type s₁ = .rparen) (noLiteral : c.type s₁.tail ≠ .lbrace)
    (sized : ¬ (t.kind = .array ∧ t.length = 0))
    (operand : Reads c Callees.cast s₁.tail (e, s')) :
    Reads c (parseCast c) s
      (.cast t.kind (!t.isSigned) (if t.kind = .pointer then some t else none) e, s') := by
  filter_upwards [operand] with n operand
  exact parseCast_iff.mpr
    (.inr ⟨ahead, t, s₁, e, type, closed, noLiteral, sized, operand, rfl⟩)

theorem reads_level {k : Nat} (first : Reads c (fun self => levelReader c self k) s (e, s₁))
    (rest : Loops c (fun self n => binaryLoop c (levelOperator k) (levelReader c self k) n e) s₁
      r) :
    Reads c (fun self => levelReader c self (k + 1)) s r := by
  filter_upwards [first, rest.reads] with n first rest
  exact levelReader_succ_iff.mpr ⟨e, s₁, first, rest⟩

theorem reads_ofOperators (inner : Reads c (fun self => levelReader c self 10) s (e, s'))
    (noQuestion : c.type s' ≠ .question) : Reads c (parseConditional c) s (e, s') := by
  filter_upwards [inner] with n inner
  exact parseConditional_iff.mpr ⟨e, s', inner, .inl ⟨noQuestion, rfl, rfl⟩⟩

theorem reads_conditional (cond : Reads c (fun self => levelReader c self 10) s (e₁, s₁))
    (question : c.type s₁ = .question) (start : isStart (c.type s₁.tail) = true)
    (first : Reads c Callees.expression s₁.tail (e₂, s₂)) (colon : c.type s₂ = .colon)
    (second : Reads c Callees.conditional s₂.tail (e₃, s')) :
    Reads c (parseConditional c) s (.conditional e₁ e₂ e₃, s') := by
  filter_upwards [cond, first, second] with n cond first second
  refine parseConditional_iff.mpr ⟨e₁, s₁, cond, .inr
    ⟨question, fun same => ?_, e₂, s₂, e₃, first, colon, second, rfl⟩⟩
  rw [same] at start
  cases start

theorem reads_ofConditional (inner : Reads c (parseConditional c) s (e, s'))
    (noName : ¬ (c.type s = .identifier ∧ isAssignment (c.type s.tail) = true))
    (noOp : isAssignment (c.type s') = false) :
    Reads c (parseAssignmentExpression c) s (e, s') := by
  filter_upwards [inner] with n inner
  exact parseAssignmentExpression_iff.mpr
    (.inr ⟨noName, e, s', inner, .inl ⟨noOp, rfl, rfl⟩⟩)

theorem reads_assignName (token : c.type s = .identifier)
    (op : isAssignment (c.type s.tail) = true)
    (value : Reads c Callees.assignment s.tail.tail (e, s')) :
    Reads c (parseAssignmentExpression c) s
      (.assignment (c.name s) (assignedValue (c.type s.tail) (.varRef (c.name s)) e), s') := by
  filter_upwards [value] with n value
  exact parseAssignmentExpression_iff.mpr (.inl ⟨token, op, e, value, rfl⟩)

theorem reads_assignTo
    (noName : ¬ (c.type s = .identifier ∧ isAssignment (c.type s.tail) = true))
    (left : Reads c (parseConditional c) s (e₁, s₁)) (fits : isTarget e₁ = true)
    (op : isAssignment (c.type s₁) = true)
    (value : Reads c Callees.assignment s₁.tail (e, s')) :
    Reads c (parseAssignmentExpression c) s
      (.assignmentTo e₁ (assignedValue (c.type s₁) e₁ e), s') := by
  filter_upwards [left, value] with n left value
  exact parseAssignmentExpression_iff.mpr
    (.inr ⟨noName, e₁, s₁, left, .inr ⟨op, fits, e, value, rfl⟩⟩)

theorem reads_expression (first : Reads c (parseAssignmentExpression c) s (e, s₁))
    (rest : Loops c (fun self n => commaLoop c self n e) s₁ r) :
    Reads c (parseExpression c) s r := by
  filter_upwards [first, rest.reads] with n first rest
  exact parseExpression_iff.mpr ⟨e, s₁, first, rest⟩

theorem reads_initExpr (start : isStart (c.type s) = true)
    (inner : Reads c (parseAssignmentExpression c) s r) : Reads c (parseInitializer c) s r := by
  filter_upwards [inner] with n inner
  refine parseInitializer_iff.mpr (.inl ⟨fun same => ?_, inner⟩)
  rw [same] at start
  cases start

theorem reads_ofInitializer (start : isStart (c.type s) = true ∨ c.type s = .lbrace)
    (inner : Reads c Callees.initializer s r) : Reads c (parseInitializerElement c) s r := by
  filter_upwards [inner] with n inner
  refine parseInitializerElement_iff.mpr (.inr (.inr ⟨fun same => ?_, fun same => ?_, inner⟩))
  all_goals
    rw [same] at start
    simp [isStart, isOperandStart] at start

theorem reads_memberElement (dot : c.type s = .dot) (field : c.type s.tail = .identifier)
    (assign : c.type s.tail.tail = .assign)
    (value : Reads c Callees.initializer s.tail.tail.tail (e, s')) :
    Reads c (parseInitializerElement c) s (.designatedMember (c.name s.tail) e, s') := by
  filter_upwards [value] with n value
  exact parseInitializerElement_iff.mpr
    (.inl ⟨dot, field, e, parseDesignated_iff.mpr ⟨assign, value⟩, rfl⟩)

theorem reads_indexElement {i : Int} (opened : c.type s = .lbracket)
    (index : c.evalConstExpr "array designator index" s.tail = .ok (i, s₁)) (nonneg : 0 ≤ i)
    (closed : c.type s₁ = .rbracket) (assign : c.type s₁.tail = .assign)
    (value : Reads c Callees.initializer s₁.tail.tail (e, s')) :
    Reads c (parseInitializerElement c) s (.designatedIndex i.toNat e, s') := by
  filter_upwards [value] with n value
  exact parseInitializerElement_iff.mpr (.inr (.inl
    ⟨opened, i, s₁, e, index, nonneg, closed, parseDesignated_iff.mpr ⟨assign, value⟩, rfl⟩))

theorem reads_elementList {rs : List Expr × Tokens}
    (first : Reads c (parseInitializerElement c) s (e, s₁))
    (rest : Loops c (fun self n => elementsLoop c self n [e]) s₁ rs) :
    Reads c (elementList c) s rs := by
  filter_upwards [first, rest.reads] with n first rest
  rw [elementList, first]
  exact rest

theorem reads_argumentList {rs : List Expr × Tokens}
    (first : Reads c Callees.assignment s (e, s₁))
    (rest : Loops c (fun self n => argumentsLoop c self n [e]) s₁ rs) :
    Reads c (argumentList c) s rs := by
  filter_upwards [first, rest.reads] with n first rest
  rw [argumentList, first]
  exact rest

end operators

/-- For the levels of one expression. -/
def One (P : Expr → Prop) : List Expr → Prop
  | [e] => P e
  | _ => True

/-- The parser reads `es` from `s` to `s'`. Where a loop reads the level, it may go on behind `s'`
with what it has read. -/
def Completes (c : Context) : Level → List Expr → Tokens → Tokens → Prop
  | .primary, es, s, s' => One (fun e => Reads c (parsePrimary c) s (e, s')) es
  | .postfixed, es, s, s' => One (fun e => ∀ r,
      Loops c (fun self n => parsePostfixSuffixes c self n e) s' r →
      Reads c (parsePostfix c) s r) es
  | .unary, es, s, s' => One (fun e => isSuffix (c.type s') = false →
      Reads c (parseUnary c) s (e, s')) es
  | .operators 0, es, s, s' => One (fun e => isSuffix (c.type s') = false →
      Reads c (parseCast c) s (e, s')) es
  | .operators (k + 1), es, s, s' => One (fun e => EndsOperand k (c.type s') → ∀ r,
      Loops c (fun self n => binaryLoop c (levelOperator k) (levelReader c self k) n e) s' r →
      Reads c (fun self => levelReader c self (k + 1)) s r) es
  | .conditional, es, s, s' => One (fun e => Stops .conditional (c.type s') →
      Reads c (parseConditional c) s (e, s')) es
  | .assignment, es, s, s' => One (fun e => Stops .assignment (c.type s') →
      Reads c (parseAssignmentExpression c) s (e, s')) es
  | .expression, es, s, s' => One (fun e => Stops .assignment (c.type s') → ∀ r,
      Loops c (fun self n => commaLoop c self n e) s' r → Reads c (parseExpression c) s r) es
  | .list, es, s, s' => Stops .assignment (c.type s') → ∀ r,
      Loops c (fun self n => argumentsLoop c self n es) s' r → Reads c (argumentList c) s r
  | .arguments, es, s, s' => Reads c (parseArguments c) s (es, s')
  | .braces, es, s, s' => One (fun e => Reads c (parseInitializer c) s (e, s')) es
  | .initializer, es, s, s' => One (fun e => Stops .assignment (c.type s') →
      Reads c (parseInitializer c) s (e, s')) es
  | .element, es, s, s' => One (fun e => Stops .assignment (c.type s') →
      Reads c (parseInitializerElement c) s (e, s')) es
  | .elements, es, s, s' => Stops .assignment (c.type s') → ∀ r,
      Loops c (fun self n => elementsLoop c self n es) s' r → Reads c (elementList c) s r
  | .literal t, es, s, s' => One (fun e =>
      Reads c (fun self => buildCompoundLiteral c self t) s (e, s')) es

section completes

variable {c : Context} {l : Level} {s s₁ s' : Tokens} {e : Expr} {es : List Expr}

theorem Completes.operators {k : Nat} (h : Completes c (.operators k) [e] s s')
    (ends : EndsOperand k (c.type s')) : Reads c (fun self => levelReader c self k) s (e, s') := by
  cases k with
  | zero => exact h ends.1
  | succ k =>
    exact h (ends.mono k.le_succ) _ (loops_binary_stop (ends.2 k (Nat.lt_succ_self k)))

theorem Completes.assignment (h : Completes c .assignment [e] s s')
    (stops : Stops .assignment (c.type s')) : Reads c Callees.assignment s (e, s') :=
  (h stops).called fun _ => rfl

theorem Completes.unary (h : Completes c .unary [e] s s')
    (noSuffix : isSuffix (c.type s') = false) :
    Reads c Callees.unary s (e, s') :=
  (h noSuffix).called fun _ => rfl

theorem Completes.initializer (h : Completes c .initializer [e] s s')
    (stops : Stops .assignment (c.type s')) : Reads c Callees.initializer s (e, s') :=
  (h stops).called fun _ => rfl

theorem Completes.expression (h : Completes c .expression [e] s s')
    (stops : Stops .assignment (c.type s')) (noComma : c.type s' ≠ .comma) :
    Reads c Callees.expression s (e, s') :=
  (h stops _ (loops_comma_stop noComma)).called fun _ => rfl

theorem Completes.expression_at {t : TokenType} (h : Completes c .expression [e] s s')
    (at_ : c.type s' = t) (closer : t ∈ [TokenType.colon, .rparen, .rbracket]) :
    Reads c Callees.expression s (e, s') := by
  refine h.expression (stops_at at_ (by simp_all; tauto)) fun comma => ?_
  rw [← at_, comma] at closer
  simp at closer

theorem Completes.braces (h : Completes c .braces [e] s s') :
    Reads c Callees.initializer s (e, s') :=
  h.called fun _ => rfl

theorem stops_scalar (comma : s₁ = if c.type s' = .comma then s'.tail else s')
    (closed : c.type s₁ = .rbrace) : Stops .assignment (c.type s') := by
  split at comma
  next found => exact stops_at found (by simp)
  next => exact stops_at (comma ▸ closed) (by simp)

theorem Derives.completes (h : Derives c l es s s') : Completes c l es s s' := by
  induction h with
  | int token | float token | double token | string token | char token =>
    exact .of fun _ => by
      simp only [parsePrimary, show (c.current _).type = _ from token, Context.name]
  | func token inside => exact reads_func token inside
  | vaStart token opened variadic _ comma _ closed first second =>
    exact reads_vaStart token opened variadic (first.assignment (stops_at comma (by simp))) comma
      (second.assignment (stops_at closed (by simp))) closed
  | vaEnd token opened _ closed only =>
    exact reads_vaEnd token opened (only.assignment (stops_at closed (by simp))) closed
  | vaCopy token opened _ comma _ closed first second =>
    exact reads_vaCopy token opened (first.assignment (stops_at comma (by simp))) comma
      (second.assignment (stops_at closed (by simp))) closed
  | vaArg token opened _ comma second closed first =>
    exact reads_vaArg token opened (first.assignment (stops_at comma (by simp))) comma second closed
  | enumConst token free found =>
    exact .of fun _ => (parsePrimary_identifier token).trans (parseIdentifier_enumConst free found)
  | «variable» token noCall =>
    exact .of fun _ => (parsePrimary_name token).trans
      (parseName_iff.mpr (.inl ⟨noCall, rfl, rfl⟩))
  | call token opened known _ accepts inner => exact reads_call token opened known inner accepts
  | callVariable token opened unknown _ inner =>
    exact reads_callVariable token opened unknown inner
  | paren opened _ closed inner =>
    exact reads_paren opened (inner.expression_at closed (by simp)) closed
  | noArguments closed => exact .of fun _ => parseArguments_iff.mpr (.inl ⟨closed, rfl, rfl⟩)
  | arguments list closed inner =>
    exact reads_arguments
      (inner (stops_at closed (by simp)) _ (loops_arguments_stop (by simp [closed])))
      list.begins closed
  | one _ only => exact fun stops r rest => reads_argumentList (only.assignment stops) rest
  | more _ comma _ before last =>
    exact fun stops r rest => before (stops_at comma (by simp)) r
      (loops_arguments_step comma (last.assignment stops) rest)
  | ofPrimary ahead _ base => exact fun r rest => reads_primary ahead base rest
  | compound ahead _ base => exact fun r rest => reads_compound ahead base rest
  | callThrough _ opened _ base inner =>
    exact fun r rest => base r (loops_callThrough opened inner rest)
  | subscript _ fits opened _ closed base index =>
    exact fun r rest => base r
      (loops_subscript fits opened (index.expression_at closed (by simp)) closed rest)
  | member _ dot field base => exact fun r rest => base r (loops_member dot field rest)
  | arrow _ arrow field base => exact fun r rest => base r (loops_arrow arrow field rest)
  | increment _ op base => exact fun r rest => base r (loops_increment op rest)
  | decrement _ op base => exact fun r rest => base r (loops_decrement op rest)
  | ofPostfix h inner =>
    exact fun noSuffix => reads_ofPostfix (operandStart_plain h.begins)
      (inner _ (loops_suffixes_stop noSuffix))
  | prefixed op _ operand => exact fun noSuffix => reads_prefixed op (operand.unary noSuffix)
  | addrOf op _ fits operand => exact fun noSuffix => reads_addrOf op (operand.unary noSuffix) fits
  | sizeofUnary op bare _ operand =>
    exact fun noSuffix => reads_sizeofUnary op bare (operand.unary noSuffix)
  | sizeofExpr op opened noType h closed operand =>
    exact fun _ => reads_sizeofExpr op opened noType h.begins
      (operand.expression_at closed (by simp)) closed
  | sizeofType op opened isType operand notVoid complete closed =>
    exact fun _ => .of fun _ => parseUnary_iff.mpr (.inl ⟨op, parseSizeof_iff.mpr (.inr (.inl
      ⟨opened, isType, _, _, operand, notVoid, complete, closed, rfl, rfl⟩))⟩)
  | ofUnary noCast _ inner => exact fun noSuffix => reads_ofUnary noCast (inner noSuffix)
  | cast ahead type closed noLiteral sized _ operand =>
    exact fun noSuffix => reads_cast ahead type closed noLiteral sized
      ((operand noSuffix).called fun _ => rfl)
  | climb _ inner => exact fun ends r rest => reads_level (inner.operators ends) rest
  | binary _ operator _ left right =>
    exact fun ends r rest => left (endsOperand_of_operator operator) r
      (loops_binary_step operator (right.operators ends) rest)
  | ofOperators _ inner => exact fun stops => reads_ofOperators (inner.operators stops.1) stops.2
  | conditional _ question first colon _ ihCond ihFirst ihSecond =>
    exact fun stops => reads_conditional
      (ihCond.operators (question ▸ endsOperand_of_closer rfl 10)) question first.begins
      (ihFirst.expression_at colon (by simp)) colon ((ihSecond stops).called fun _ => rfl)
  | ofConditional h inner =>
    intro stops
    refine reads_ofConditional (inner ⟨stops.1, stops.2.1⟩) (fun named => ?_) stops.2.2
    have noOp := stops.2.2
    rw [(h.ends rfl named.1 named.2).1, named.2] at noOp
    cases noOp
  | assignName token op _ value =>
    exact fun stops => reads_assignName token op (value.assignment stops)
  | assignTo noName _ fits op _ left value =>
    intro stops
    refine reads_assignTo noName (left ⟨endsOperand_of_closer (isCloser_of_isAssignment op) 10, ?_⟩)
      fits op (value.assignment stops)
    intro question
    rw [question] at op
    cases op
  | ofAssignment _ inner => exact fun stops r rest => reads_expression (inner stops) rest
  | comma _ comma _ left right =>
    exact fun stops r rest => left (stops_at comma (by simp)) r
      (loops_comma_step comma (right stops) rest)
  | noElements opened closed =>
    exact .of fun _ => parseInitializer_iff.mpr (.inr (.inl ⟨opened, closed, rfl, rfl⟩))
  | braces opened h closed inner =>
    exact reads_braces opened (ne_rbrace_of_begins h.begins)
      (inner (stops_at closed (by simp)) _ (loops_elements_stop (by simp [closed]))) closed
  | bracesComma opened h comma closed inner =>
    exact reads_braces opened (ne_rbrace_of_begins h.begins)
      (inner (stops_at comma (by simp)) _ (loops_elements_comma comma closed)) closed
  | oneElement _ only => exact fun stops r rest => reads_elementList (only stops) rest
  | moreElements _ comma h before last =>
    exact fun stops r rest => before (stops_at comma (by simp)) r (loops_elements_step comma
      (ne_rbrace_of_begins h.begins) (last stops) rest)
  | ofInitializer h inner =>
    exact fun stops => reads_ofInitializer h.begins (inner.initializer stops)
  | memberElement dot field assign _ value =>
    exact fun stops => reads_memberElement dot field assign (value.initializer stops)
  | indexElement opened index nonneg closed assign _ value =>
    exact fun stops => reads_indexElement opened index nonneg closed assign
      (value.initializer stops)
  | initExpr h inner => exact fun stops => reads_initExpr h.begins (inner stops)
  | initBraces _ inner => exact fun _ => inner
  | record kind _ inner =>
    filter_upwards [inner.braces] with n inner
    exact buildCompoundLiteral_iff.mpr (.inl ⟨kind, _, inner, rfl⟩)
  | array kind _ inner =>
    filter_upwards [inner.braces] with n inner
    exact buildCompoundLiteral_iff.mpr (.inr (.inl ⟨kind, _, inner, rfl⟩))
  | scalar kind _ comma closed inner =>
    filter_upwards [inner.assignment (stops_scalar comma closed)] with n inner
    exact buildCompoundLiteral_iff.mpr
      (.inr (.inr ⟨kind, _, _, _, inner, comma, closed, rfl, rfl⟩))

/-- In front of what stops an expression, the parser reads the expressions of the grammar. -/
theorem expression_iff (stops : Stops .expression (c.type s')) :
    (∃ n, (parsers c n).expression s = .ok (e, s')) ↔ Derives c .expression [e] s s' := by
  obtain ⟨ends, question, noOp, noComma⟩ := stops
  constructor
  · rintro ⟨n, read⟩
    exact (parsers_sound n).expression read
  · intro h
    exact (h.completes.expression ⟨ends, question, noOp⟩ noComma).exists

end completes

/-- The start of a source file without declarations. -/
def bare : Context where
  eof := { type := .eof, position := ⟨0, 0, none⟩ }
  atEnd := rfl
  typedefs := []
  enumConsts := []
  funcs := []
  currentFuncName := none
  currentFuncIsVariadic := false
  parseTypeName := fun _ => .error ""
  evalConstExpr := fun _ _ => .error ""

def tokenOf (type : TokenType) (text : String) : Front.Token :=
  { type := type, value := text.toList, literalType := .int, position := ⟨1, 1, none⟩ }

/-- `a[i] += 1` -/
def plainSubscript : Tokens :=
  [tokenOf .identifier "a", tokenOf .lbracket "[", tokenOf .identifier "i",
    tokenOf .rbracket "]", tokenOf .plusAssign "+=", tokenOf .intLiteral "1"]

def one : Expr := .intLiteral (.dec 1) .int false

/-- The tree of `a[i] += 1`. -/
def plainTree : Expr :=
  .assignmentTo (.arrayIndex (.varRef "a") (.varRef "i"))
    (.binaryOp .add (.arrayIndex (.varRef "a") (.varRef "i")) one .void)

theorem stops_end : Stops .expression (bare.type []) :=
  ⟨⟨rfl, fun j _ => by
    cases found : levelOperator j (bare.type []) with
    | none => rfl
    | some op =>
      exact absurd (mem_operatorTable found)
        (by simp [operatorTable, bare, Context.type, Context.current])⟩,
    by decide, rfl, by decide⟩

theorem plain_read : (∃ n, (parsers bare n).expression plainSubscript = .ok (plainTree, [])) ↔
    Derives bare .expression [plainTree] plainSubscript [] :=
  expression_iff stops_end

section unique

variable {c : Context} {s : Tokens}

/-- One sequence of tokens is one expression, and ends at one place. -/
theorem expression_unique {e₁ e₂ : Expr} {s₁ s₂ : Tokens} (first : Derives c .expression [e₁] s s₁)
    (second : Derives c .expression [e₂] s s₂) (stops₁ : Stops .expression (c.type s₁))
    (stops₂ : Stops .expression (c.type s₂)) : e₁ = e₂ ∧ s₁ = s₂ := by
  obtain ⟨ends₁, question₁, noOp₁, noComma₁⟩ := stops₁
  obtain ⟨ends₂, question₂, noOp₂, noComma₂⟩ := stops₂
  have read₁ := first.completes.expression ⟨ends₁, question₁, noOp₁⟩ noComma₁
  have read₂ := second.completes.expression ⟨ends₂, question₂, noOp₂⟩ noComma₂
  obtain ⟨n, read₁, read₂⟩ := (read₁.and read₂).exists
  have same := read₁.symm.trans read₂
  cases same
  exact ⟨rfl, rfl⟩

end unique

theorem plain_unique : plainTree = plainTree ∧ ([] : Tokens) = [] :=
  expression_unique ((parsers_sound 5).expression (show (parsers bare 5).expression plainSubscript =
    .ok (plainTree, []) from rfl)) ((parsers_sound 5).expression rfl) stops_end stops_end

end ClaudeC99.Expressions
