import ClaudeC99.Front.Expressions

/-! The grammar of expressions that the parser stands for, and what may not follow an expression. -/

namespace ClaudeC99.Expressions

open Front (TokenType FuncSig ConstOperator parserFindFunction)

/-- Binary operators, from the tightest level on. -/
def levelOperator : Nat → ConstOperator
  | 0 => Front.multiplicativeToken
  | 1 => Front.additiveToken
  | 2 => Front.shiftToken
  | 3 => Front.relationalToken
  | 4 => Front.equalityToken
  | 5 => Front.bitwiseAndToken
  | 6 => Front.bitwiseXorToken
  | 7 => Front.bitwiseOrToken
  | 8 => Front.logicalAndToken
  | 9 => Front.logicalOrToken
  | _ => fun _ => none

/-- `operators k` are the cast expressions joined by operators of the `k` tightest levels.
`list`, `arguments` and `elements` are several expressions, `arguments` with the `)` behind them;
`literal t` is a compound literal of the type `t` from its brace on. -/
inductive Level
  | primary | postfixed | unary
  | operators (k : Nat)
  | conditional | assignment | expression
  | list | arguments
  | braces | initializer | element | elements
  | literal (t : CType)

namespace Context

variable (c : Context)

def name (s : Tokens) : String := String.ofList (c.current s).value

/-- An identifier with the spelling `text`. -/
def Spells (s : Tokens) (text : String) : Prop :=
  c.type s = .identifier ∧ (c.current s).value = text.toList

/-- The identifiers that the compiler takes for itself. -/
def reserved : List String :=
  ["__func__", "__builtin_va_start", "__builtin_va_end", "__builtin_va_copy", "__builtin_va_arg"]

/-- An identifier that is neither reserved nor an enumeration constant. -/
def IsName (s : Tokens) : Prop :=
  c.type s = .identifier ∧ (∀ text ∈ reserved, (c.current s).value ≠ text.toList) ∧
    (c.enumConsts.find? fun ec => ec.name = (c.current s).value) = none

/-- A parenthesis that the parser takes for that of a cast or a compound literal. -/
def CastAhead (s : Tokens) : Prop := c.type s = .lparen ∧ c.startsTypeName s.tail = true

end Context

/-- A call with `count` arguments is accepted. -/
def Accepts (sig : FuncSig) (count : Nat) : Prop :=
  sig.paramCount = -1 ∨ sig.hasNoPrototype = true ∨
    if sig.isVariadic then sig.paramCount ≤ count else sig.paramCount = count

/-- `Derives c l es s s'`: the tokens of `s` up to `s'` are of the level `l` and stand for `es`,
which is one expression but at the levels of several. -/
inductive Derives (c : Context) : Level → List Expr → Tokens → Tokens → Prop
  | int {s} (token : c.type s = .intLiteral) : Derives c .primary
      [.intLiteral (literalText (c.current s)) (c.current s).literalType (c.current s).isUnsigned]
      s s.tail
  | float {s} (token : c.type s = .floatLiteral) :
      Derives c .primary [.floatLiteral (c.name s) .float] s s.tail
  | double {s} (token : c.type s = .doubleLiteral) :
      Derives c .primary [.floatLiteral (c.name s) .double] s s.tail
  | string {s} (token : c.type s = .stringLiteral) : Derives c .primary
      [.stringLiteral ((s.takeWhile isString).flatMap fun t => bytesOf t.value)]
      s (s.dropWhile isString)
  | char {s} (token : c.type s = .charLiteral) :
      Derives c .primary [.charLiteral ((bytesOf (c.current s).value).headD 0)] s s.tail
  | func {s func} (token : c.Spells s "__func__") (inside : c.currentFuncName = some func) :
      Derives c .primary [.stringLiteral (bytesOf func)] s s.tail
  | vaStart {s ap last s₁ s₂} (token : c.Spells s "__builtin_va_start")
      (opened : c.type s.tail = .lparen) (variadic : c.currentFuncIsVariadic = true)
      (first : Derives c .assignment [ap] s.tail.tail s₁) (comma : c.type s₁ = .comma)
      (second : Derives c .assignment [last] s₁.tail s₂) (closed : c.type s₂ = .rparen) :
      Derives c .primary [.vaStart ap last] s s₂.tail
  | vaEnd {s ap s₁} (token : c.Spells s "__builtin_va_end") (opened : c.type s.tail = .lparen)
      (only : Derives c .assignment [ap] s.tail.tail s₁) (closed : c.type s₁ = .rparen) :
      Derives c .primary [.vaEnd ap] s s₁.tail
  | vaCopy {s dst src s₁ s₂} (token : c.Spells s "__builtin_va_copy")
      (opened : c.type s.tail = .lparen) (first : Derives c .assignment [dst] s.tail.tail s₁)
      (comma : c.type s₁ = .comma) (second : Derives c .assignment [src] s₁.tail s₂)
      (closed : c.type s₂ = .rparen) : Derives c .primary [.vaCopy dst src] s s₂.tail
  | vaArg {s ap t s₁ s₂} (token : c.Spells s "__builtin_va_arg") (opened : c.type s.tail = .lparen)
      (first : Derives c .assignment [ap] s.tail.tail s₁) (comma : c.type s₁ = .comma)
      (second : c.parseTypeName s₁.tail = .ok (t, s₂)) (closed : c.type s₂ = .rparen) :
      Derives c .primary [.vaArg ap t] s s₂.tail
  | enumConst {s ec} (token : c.type s = .identifier)
      (free : ∀ text ∈ Context.reserved, (c.current s).value ≠ text.toList)
      (found : (c.enumConsts.find? fun ec => ec.name = (c.current s).value) = some ec) :
      Derives c .primary [.intLiteral (.dec ec.value) .int false] s s.tail
  | variable {s} (token : c.IsName s) (noCall : c.type s.tail ≠ .lparen) :
      Derives c .primary [.varRef (c.name s)] s s.tail
  | call {s sig args s'} (token : c.IsName s) (opened : c.type s.tail = .lparen)
      (known : parserFindFunction c.funcs (c.name s) = some sig)
      (inner : Derives c .arguments args s.tail.tail s') (accepts : Accepts sig args.length) :
      Derives c .primary [.functionCall (c.name s) sig.returnType args] s s'
  | callVariable {s args s'} (token : c.IsName s) (opened : c.type s.tail = .lparen)
      (unknown : parserFindFunction c.funcs (c.name s) = none)
      (inner : Derives c .arguments args s.tail.tail s') :
      Derives c .primary [.indirectCall (.varRef (c.name s)) args] s s'
  | paren {s e s'} (opened : c.type s = .lparen) (inner : Derives c .expression [e] s.tail s')
      (closed : c.type s' = .rparen) : Derives c .primary [e] s s'.tail
  | noArguments {s} (closed : c.type s = .rparen) : Derives c .arguments [] s s.tail
  | arguments {s es s'} (inner : Derives c .list es s s') (closed : c.type s' = .rparen) :
      Derives c .arguments es s s'.tail
  | one {s e s'} (only : Derives c .assignment [e] s s') : Derives c .list [e] s s'
  | more {s es s₁ e s₂} (before : Derives c .list es s s₁) (comma : c.type s₁ = .comma)
      (last : Derives c .assignment [e] s₁.tail s₂) : Derives c .list (es ++ [e]) s s₂
  | ofPrimary {s e s'} (ahead : compoundLiteralAhead c s = .ok none)
      (base : Derives c .primary [e] s s') : Derives c .postfixed [e] s s'
  | compound {s t e s₁ s'} (ahead : compoundLiteralAhead c s = .ok (some (t, s₁)))
      (base : Derives c (.literal t) [e] s₁ s') : Derives c .postfixed [e] s s'
  | callThrough {s e args s₁ s₂} (base : Derives c .postfixed [e] s s₁)
      (opened : c.type s₁ = .lparen) (inner : Derives c .arguments args s₁.tail s₂) :
      Derives c .postfixed [.indirectCall e args] s s₂
  | subscript {s e i s₁ s₂} (base : Derives c .postfixed [e] s s₁) (fits : isSubscriptBase e = true)
      (opened : c.type s₁ = .lbracket) (index : Derives c .expression [i] s₁.tail s₂)
      (closed : c.type s₂ = .rbracket) : Derives c .postfixed [.arrayIndex e i] s s₂.tail
  | member {s e s₁} (base : Derives c .postfixed [e] s s₁) (dot : c.type s₁ = .dot)
      (field : c.type s₁.tail = .identifier) :
      Derives c .postfixed [.memberAccess e (c.name s₁.tail)] s s₁.tail.tail
  | arrow {s e s₁} (base : Derives c .postfixed [e] s s₁) (arrow : c.type s₁ = .arrow)
      (field : c.type s₁.tail = .identifier) :
      Derives c .postfixed [.arrowAccess e (c.name s₁.tail)] s s₁.tail.tail
  | increment {s e s₁} (base : Derives c .postfixed [e] s s₁) (op : c.type s₁ = .increment) :
      Derives c .postfixed [.postfixIncDec .increment e] s s₁.tail
  | decrement {s e s₁} (base : Derives c .postfixed [e] s s₁) (op : c.type s₁ = .decrement) :
      Derives c .postfixed [.postfixIncDec .decrement e] s s₁.tail
  | ofPostfix {s e s'} (inner : Derives c .postfixed [e] s s') : Derives c .unary [e] s s'
  | prefixed {s node e s'} (op : prefixNode (c.type s) = some node)
      (operand : Derives c .unary [e] s.tail s') : Derives c .unary [node e] s s'
  | addrOf {s e s'} (op : c.type s = .ampersand) (operand : Derives c .unary [e] s.tail s')
      (fits : isAddressable e = true) : Derives c .unary [.addrOf e] s s'
  | sizeofUnary {s e s'} (op : c.type s = .sizeof) (bare : c.type s.tail ≠ .lparen)
      (operand : Derives c .unary [e] s.tail s') : Derives c .unary [.sizeofExpr e] s s'
  | sizeofExpr {s e s'} (op : c.type s = .sizeof) (opened : c.type s.tail = .lparen)
      (noType : c.startsTypeName s.tail.tail = false)
      (operand : Derives c .expression [e] s.tail.tail s') (closed : c.type s' = .rparen) :
      Derives c .unary [.sizeofExpr e] s s'.tail
  | sizeofType {s t s'} (op : c.type s = .sizeof) (opened : c.type s.tail = .lparen)
      (isType : c.startsTypeName s.tail.tail = true)
      (operand : c.parseTypeName s.tail.tail = .ok (t, s')) (notVoid : t.kind ≠ .void)
      (complete : ¬ (t.kind = .array ∧ t.length = 0)) (closed : c.type s' = .rparen) :
      Derives c .unary [.sizeofType t.kind
        (if t.kind = .struct ∨ t.kind = .union ∨ t.kind = .array then some t else none)] s s'.tail
  | ofUnary {s e s'}
      (noCast : c.CastAhead s → ∃ t s₁, compoundLiteralAhead c s = .ok (some (t, s₁)))
      (inner : Derives c .unary [e] s s') : Derives c (.operators 0) [e] s s'
  | cast {s t e s₁ s'} (ahead : c.CastAhead s) (type : c.parseTypeName s.tail = .ok (t, s₁))
      (closed : c.type s₁ = .rparen) (noLiteral : c.type s₁.tail ≠ .lbrace)
      (sized : ¬ (t.kind = .array ∧ t.length = 0))
      (operand : Derives c (.operators 0) [e] s₁.tail s') : Derives c (.operators 0)
        [.cast t.kind (!t.isSigned) (if t.kind = .pointer then some t else none) e] s s'
  | climb {k s e s'} (inner : Derives c (.operators k) [e] s s') :
      Derives c (.operators (k + 1)) [e] s s'
  | binary {k s l r op s₁ s₂} (left : Derives c (.operators (k + 1)) [l] s s₁)
      (operator : levelOperator k (c.type s₁) = some op)
      (right : Derives c (.operators k) [r] s₁.tail s₂) :
      Derives c (.operators (k + 1)) [.binaryOp op l r .void] s s₂
  | ofOperators {s e s'} (inner : Derives c (.operators 10) [e] s s') :
      Derives c .conditional [e] s s'
  | conditional {s e₁ e₂ e₃ s₁ s₂ s₃} (cond : Derives c (.operators 10) [e₁] s s₁)
      (question : c.type s₁ = .question) (first : Derives c .expression [e₂] s₁.tail s₂)
      (colon : c.type s₂ = .colon) (second : Derives c .conditional [e₃] s₂.tail s₃) :
      Derives c .conditional [.conditional e₁ e₂ e₃] s s₃
  | ofConditional {s e s'} (inner : Derives c .conditional [e] s s') :
      Derives c .assignment [e] s s'
  | assignName {s e s'} (token : c.type s = .identifier)
      (op : isAssignment (c.type s.tail) = true)
      (value : Derives c .assignment [e] s.tail.tail s') : Derives c .assignment
        [.assignment (c.name s) (assignedValue (c.type s.tail) (.varRef (c.name s)) e)] s s'
  | assignTo {s target e s₁ s'}
      (noName : ¬ (c.type s = .identifier ∧ isAssignment (c.type s.tail) = true))
      (left : Derives c .conditional [target] s s₁) (fits : isTarget target = true)
      (op : isAssignment (c.type s₁) = true) (value : Derives c .assignment [e] s₁.tail s') :
      Derives c .assignment [.assignmentTo target (assignedValue (c.type s₁) target e)] s s'
  | ofAssignment {s e s'} (inner : Derives c .assignment [e] s s') :
      Derives c .expression [e] s s'
  | comma {s l r s₁ s₂} (left : Derives c .expression [l] s s₁) (comma : c.type s₁ = .comma)
      (right : Derives c .assignment [r] s₁.tail s₂) : Derives c .expression [.comma l r] s s₂
  | noElements {s} (opened : c.type s = .lbrace) (closed : c.type s.tail = .rbrace) :
      Derives c .braces [.initializerList []] s s.tail.tail
  | braces {s es s'} (opened : c.type s = .lbrace) (inner : Derives c .elements es s.tail s')
      (closed : c.type s' = .rbrace) : Derives c .braces [.initializerList es] s s'.tail
  | bracesComma {s es s'} (opened : c.type s = .lbrace) (inner : Derives c .elements es s.tail s')
      (comma : c.type s' = .comma) (closed : c.type s'.tail = .rbrace) :
      Derives c .braces [.initializerList es] s s'.tail.tail
  | oneElement {s e s'} (only : Derives c .element [e] s s') : Derives c .elements [e] s s'
  | moreElements {s es s₁ e s₂} (before : Derives c .elements es s s₁) (comma : c.type s₁ = .comma)
      (last : Derives c .element [e] s₁.tail s₂) : Derives c .elements (es ++ [e]) s s₂
  | ofInitializer {s e s'} (inner : Derives c .initializer [e] s s') : Derives c .element [e] s s'
  | memberElement {s e s'} (dot : c.type s = .dot) (field : c.type s.tail = .identifier)
      (assign : c.type s.tail.tail = .assign)
      (value : Derives c .initializer [e] s.tail.tail.tail s') :
      Derives c .element [.designatedMember (c.name s.tail) e] s s'
  | indexElement {s i e s₁ s'} (opened : c.type s = .lbracket)
      (index : c.evalConstExpr "array designator index" s.tail = .ok (i, s₁)) (nonneg : 0 ≤ i)
      (closed : c.type s₁ = .rbracket) (assign : c.type s₁.tail = .assign)
      (value : Derives c .initializer [e] s₁.tail.tail s') :
      Derives c .element [.designatedIndex i.toNat e] s s'
  | initExpr {s e s'} (inner : Derives c .assignment [e] s s') : Derives c .initializer [e] s s'
  | initBraces {s e s'} (inner : Derives c .braces [e] s s') : Derives c .initializer [e] s s'
  | record {t s e s'} (kind : t.kind = .struct ∨ t.kind = .union)
      (inner : Derives c .braces [e] s s') :
      Derives c (.literal t) [.compoundLiteral t.kind (some t) false 0 e] s s'
  | array {t s e s'} (kind : t.kind = .array) (inner : Derives c .braces [e] s s') :
      Derives c (.literal t) [.compoundLiteral .array (some (sizedBy t e))
        ((sizedBy t e).base.any isUnsignedType) 0 e] s s'
  | scalar {t s e s' s''} (kind : t.kind ∉ [.void, .function, .struct, .union, .array])
      (inner : Derives c .assignment [e] s.tail s')
      (comma : s'' = if c.type s' = .comma then s'.tail else s') (closed : c.type s'' = .rbrace) :
      Derives c (.literal t) [.compoundLiteral t.kind (if t.kind = .pointer then some t else none)
        (isUnsignedType t) 0 e] s s''.tail

end ClaudeC99.Expressions
