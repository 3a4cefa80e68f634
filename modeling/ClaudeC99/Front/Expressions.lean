import ClaudeC99.Ast
import ClaudeC99.Front.ConstExpr
import ClaudeC99.Front.Functions

/-! The parser of expressions, from `parse_primary` to `parse_expression`, over the tokens of the
source. -/

namespace ClaudeC99.Expressions

open Front (Token TokenType FuncSig EnumConst TypedefEntry ConstOperator tokenDisplayName
  parserFindFunction)
open Numeral (digitsValue)
open Precedence (Reader)
open Preprocessor (Text)

abbrev Tokens : Type := List Token

abbrev ExprReader : Type := Reader Tokens String Expr

/-- What the parser knows where an expression starts. `eof` is what `lexer_next_token` returns
behind the last token, as often as it is asked. The reader of type names and that of constant
expressions are left to the rest of the parser. -/
structure Context where
  eof : Token
  atEnd : eof.type = .eof
  typedefs : List TypedefEntry
  enumConsts : List EnumConst
  funcs : List FuncSig
  currentFuncName : Option Text
  currentFuncIsVariadic : Bool
  parseTypeName : Reader Tokens String CType
  evalConstExpr : String → Reader Tokens String Int

/-- The functions of the parser that call each other in a circle, and how often a loop may run. -/
structure Callees where
  rounds : Nat
  expression : ExprReader
  assignment : ExprReader
  conditional : ExprReader
  cast : ExprReader
  unary : ExprReader
  initializer : ExprReader

/-- The message of `compile_error_at` at a token. -/
def message (t : Token) (text : String) : String :=
  match t.position.file with
  | some path =>
    if 0 < t.position.line then
      String.ofList path ++ ":" ++ toString t.position.line ++ ":" ++ toString t.position.col ++
        ": " ++ text
    else text
  | none => text

/-- What a loop ends with that has used up its rounds. -/
def outOfRounds : String := "out of rounds"

namespace Context

variable (c : Context)

/-- `parser->current` -/
def current (ts : Tokens) : Token := ts.headD c.eof

def type (ts : Tokens) : TokenType := (c.current ts).type

def error {α : Type} (ts : Tokens) (text : String) : Except String α :=
  .error (message (c.current ts) text)

def expect (type : TokenType) (ts : Tokens) : Except String (Token × Tokens) :=
  if c.type ts = type then .ok (c.current ts, ts.tail)
  else
    c.error ts ("error: expected " ++ tokenDisplayName type ++ ", got " ++
      tokenDisplayName (c.type ts) ++ " ('" ++ String.ofList (c.current ts).value ++ "')")

/-- `parser_find_typedef`, for the name of a token -/
def isTypedefName (name : Text) : Bool := c.typedefs.any fun e => e.name = name

/-- What the parser takes for the start of a type name behind a `(`. -/
def startsTypeName (ts : Tokens) : Bool :=
  match c.type ts with
  | .const | .volatile | .void | .float | .double | .bool | .char | .short | .int | .long
  | .signed | .unsigned | .struct | .union => true
  | .identifier => c.isTypedefName (c.current ts).value
  | _ => false

end Context

/-- The text of the literal: the lexer has rewritten octal literals to decimal. -/
def literalText (t : Token) : NumText :=
  match t.value with
  | '0' :: 'x' :: digits | '0' :: 'X' :: digits => .hex (digitsValue 16 digits)
  | digits => .dec (digitsValue 10 digits)

def bytesOf (text : Text) : List UInt8 := text.map fun c => UInt8.ofNat c.toNat

section parser

variable (c : Context) (self : Callees)

/-- `{ "," <assignment_expression> }` -/
def argumentsLoop : Nat → List Expr → Reader Tokens String (List Expr)
  | 0, _, _ => .error outOfRounds
  | n + 1, args, ts =>
    if c.type ts = .comma then do
      let (e, ts) ← self.assignment ts.tail
      argumentsLoop n (args ++ [e]) ts
    else .ok (args, ts)

/-- The arguments of a call and the `)` behind them. -/
def parseArguments : Reader Tokens String (List Expr) := fun ts =>
  if c.type ts = .rparen then .ok ([], ts.tail)
  else do
    let (e, ts) ← self.assignment ts
    let (args, ts) ← argumentsLoop c self self.rounds [e] ts
    let (_, ts) ← c.expect .rparen ts
    .ok (args, ts)

def checkArity (sig : FuncSig) (name : String) (count : Nat) (ts : Tokens) : Except String Unit :=
  if sig.paramCount = -1 ∨ sig.hasNoPrototype then .ok ()
  else if sig.isVariadic then
    if count < sig.paramCount then
      c.error ts
        s!"error: function '{name}' expects at least {sig.paramCount} arguments, got {count}"
    else .ok ()
  else if sig.paramCount ≠ count then
    c.error ts s!"error: function '{name}' expects {sig.paramCount} arguments, got {count}"
  else .ok ()

/-- A variable, or a call of a named function or through a variable. -/
def parseName : ExprReader := fun ts =>
  let name := String.ofList (c.current ts).value
  if c.type ts.tail = .lparen then
    match parserFindFunction c.funcs name with
    | some sig => do
      let (args, ts) ← parseArguments c self ts.tail.tail
      checkArity c sig name args.length ts
      .ok (.functionCall name sig.returnType args, ts)
    | none => do
      let (args, ts) ← parseArguments c self ts.tail.tail
      .ok (.indirectCall (.varRef name) args, ts)
  else .ok (.varRef name, ts.tail)

def parseVaStart : ExprReader := fun ts => do
  let (_, ts) ← c.expect .lparen ts.tail
  if c.currentFuncIsVariadic = false then
    c.error ts "error: __builtin_va_start used outside a variadic function"
  else
    let (ap, ts) ← self.assignment ts
    if c.type ts ≠ .comma then
      c.error ts "error: __builtin_va_start requires exactly 2 arguments"
    else
      let (last, ts) ← self.assignment ts.tail
      let (_, ts) ← c.expect .rparen ts
      .ok (.vaStart ap last, ts)

def parseVaEnd : ExprReader := fun ts => do
  let (_, ts) ← c.expect .lparen ts.tail
  let (ap, ts) ← self.assignment ts
  let (_, ts) ← c.expect .rparen ts
  .ok (.vaEnd ap, ts)

def parseVaCopy : ExprReader := fun ts => do
  let (_, ts) ← c.expect .lparen ts.tail
  let (dst, ts) ← self.assignment ts
  let (_, ts) ← c.expect .comma ts
  let (src, ts) ← self.assignment ts
  let (_, ts) ← c.expect .rparen ts
  .ok (.vaCopy dst src, ts)

def parseVaArg : ExprReader := fun ts => do
  let (_, ts) ← c.expect .lparen ts.tail
  let (ap, ts) ← self.assignment ts
  let (_, ts) ← c.expect .comma ts
  let (type, ts) ← c.parseTypeName ts
  let (_, ts) ← c.expect .rparen ts
  .ok (.vaArg ap type, ts)

/-- The identifiers that are no plain names come first. -/
def parseIdentifier : ExprReader := fun ts =>
  let name := (c.current ts).value
  if name = "__func__".toList then
    match c.currentFuncName with
    | none => c.error ts "error: '__func__' used outside of a function body"
    | some func => .ok (.stringLiteral (bytesOf func), ts.tail)
  else if name = "__builtin_va_start".toList then parseVaStart c self ts
  else if name = "__builtin_va_end".toList then parseVaEnd c self ts
  else if name = "__builtin_va_copy".toList then parseVaCopy c self ts
  else if name = "__builtin_va_arg".toList then parseVaArg c self ts
  else match c.enumConsts.find? fun ec => ec.name = name with
    | some ec => .ok (.intLiteral (.dec ec.value) .int false, ts.tail)
    | none => parseName c self ts

def isString (t : Token) : Bool := t.type = .stringLiteral

/-- Adjacent string literals are one. -/
def parsePrimary : ExprReader := fun ts =>
  let t := c.current ts
  match t.type with
  | .intLiteral => .ok (.intLiteral (literalText t) t.literalType t.isUnsigned, ts.tail)
  | .floatLiteral => .ok (.floatLiteral (String.ofList t.value) .float, ts.tail)
  | .doubleLiteral => .ok (.floatLiteral (String.ofList t.value) .double, ts.tail)
  | .stringLiteral =>
    .ok (.stringLiteral ((ts.takeWhile isString).flatMap fun t => bytesOf t.value),
      ts.dropWhile isString)
  | .charLiteral => .ok (.charLiteral ((bytesOf t.value).headD 0), ts.tail)
  | .identifier => parseIdentifier c self ts
  | .lparen => do
    let (e, ts) ← self.expression ts.tail
    let (_, ts) ← c.expect .rparen ts
    .ok (e, ts)
  | _ => c.error ts ("error: expected expression, got '" ++ String.ofList t.value ++ "'")

/-- What may stand before a `[`. -/
def isSubscriptBase : Expr → Bool
  | .varRef _ | .deref _ | .arrayIndex _ _ | .memberAccess _ _ | .arrowAccess _ _
  | .compoundLiteral _ _ _ _ _ | .stringLiteral _ => true
  | _ => false

def parsePostfixSuffixes : Nat → Expr → ExprReader
  | 0, _, _ => .error outOfRounds
  | n + 1, e, ts =>
    match c.type ts with
    | .lparen => do
      let (args, ts) ← parseArguments c self ts.tail
      parsePostfixSuffixes n (.indirectCall e args) ts
    | .lbracket =>
      if isSubscriptBase e then do
        let (index, ts) ← self.expression ts.tail
        let (_, ts) ← c.expect .rbracket ts
        parsePostfixSuffixes n (.arrayIndex e index) ts
      else c.error ts "error: subscript base must be an identifier"
    | .dot => do
      let (field, ts) ← c.expect .identifier ts.tail
      parsePostfixSuffixes n (.memberAccess e (String.ofList field.value)) ts
    | .arrow => do
      let (field, ts) ← c.expect .identifier ts.tail
      parsePostfixSuffixes n (.arrowAccess e (String.ofList field.value)) ts
    | .increment => parsePostfixSuffixes n (.postfixIncDec .increment e) ts.tail
    | .decrement => parsePostfixSuffixes n (.postfixIncDec .decrement e) ts.tail
    | _ => .ok (e, ts)

/-- The number of elements that an initializer list implies. -/
def inferCompoundLiteralArrayLength (elements : List Expr) : Nat :=
  let step (state : Nat × Nat) (e : Expr) : Nat × Nat :=
    let cur := match e with
      | .designatedIndex index _ => index
      | _ => state.1
    (cur + 1, max state.2 cur)
  if elements = [] then 0 else (elements.foldl step (0, 0)).2 + 1

/-- `is_unsigned` of a scalar type, or of an element type. -/
def isUnsignedType (t : CType) : Bool :=
  !t.isSigned && t.kind ≠ .bool && t.kind ≠ .unsignedLongLong

def elementsOf : Expr → List Expr
  | .initializerList elements => elements
  | _ => []

/-- The type of an array literal, with the length that its elements imply where it has none. -/
def sizedBy (t : CType) (list : Expr) : CType :=
  match t with
  | .array element 0 _ =>
    .typeArray element (max 1 (inferCompoundLiteralArrayLength (elementsOf list)))
  | t => t

/-- From the `{` of a compound literal on. -/
def buildCompoundLiteral (t : CType) : ExprReader := fun ts =>
  match t.kind with
  | .void | .function => c.error ts "error: invalid type for compound literal"
  | .struct | .union => do
    let (list, ts) ← self.initializer ts
    .ok (.compoundLiteral t.kind (some t) false 0 list, ts)
  | .array => do
    let (list, ts) ← self.initializer ts
    let sized := sizedBy t list
    .ok (.compoundLiteral .array (some sized) (sized.base.any isUnsignedType) 0 list, ts)
  | _ => do
    let (init, ts) ← self.assignment ts.tail
    let (_, ts) ← c.expect .rbrace (if c.type ts = .comma then ts.tail else ts)
    let fullType := if t.kind = .pointer then some t else none
    .ok (.compoundLiteral t.kind fullType (isUnsignedType t) 0 init, ts)

/-- A compound literal below a unary operator: its type, and the tokens from the `{` on. -/
def compoundLiteralAhead (ts : Tokens) : Except String (Option (CType × Tokens)) :=
  if c.type ts = .lparen ∧ c.startsTypeName ts.tail then do
    let (t, ts) ← c.parseTypeName ts.tail
    if c.type ts = .rparen ∧ c.type ts.tail = .lbrace then .ok (some (t, ts.tail))
    else .ok none
  else .ok none

def parsePostfix : ExprReader := fun ts => do
  match ← compoundLiteralAhead c ts with
  | some (t, ts) =>
    let (base, ts) ← buildCompoundLiteral c self t ts
    parsePostfixSuffixes c self self.rounds base ts
  | none =>
    let (base, ts) ← parsePrimary c self ts
    parsePostfixSuffixes c self self.rounds base ts

/-- `sizeof`, and behind it an expression without parentheses, a type name or an expression. -/
def parseSizeof : ExprReader := fun ts =>
  if c.type ts.tail ≠ .lparen then do
    let (operand, ts) ← self.unary ts.tail
    .ok (.sizeofExpr operand, ts)
  else
    let ts := ts.tail.tail
    if c.startsTypeName ts then do
      let (t, ts) ← c.parseTypeName ts
      if t.kind = .void then c.error ts "error: sizeof applied to void type"
      else if t.kind = .array ∧ t.length = 0 then
        c.error ts "error: sizeof applied to incomplete array type"
      else
        let (_, ts) ← c.expect .rparen ts
        let fullType :=
          if t.kind = .struct ∨ t.kind = .union ∨ t.kind = .array then some t else none
        .ok (.sizeofType t.kind fullType, ts)
    else if c.type ts = .rparen then
      c.error ts "error: expected expression or type in sizeof"
    else do
      let (operand, ts) ← self.expression ts
      let (_, ts) ← c.expect .rparen ts
      .ok (.sizeofExpr operand, ts)

/-- What `&` may stand before. -/
def isAddressable : Expr → Bool
  | .varRef _ | .arrayIndex _ _ | .memberAccess _ _ | .arrowAccess _ _
  | .compoundLiteral _ _ _ _ _ => true
  | _ => false

/-- The unary operators whose operands are not checked. -/
def prefixNode : TokenType → Option (Expr → Expr)
  | .increment => some (.prefixIncDec .increment)
  | .decrement => some (.prefixIncDec .decrement)
  | .star => some .deref
  | .plus => some (.unaryOp .plus)
  | .minus => some (.unaryOp .minus)
  | .bang => some (.unaryOp .bang)
  | .tilde => some (.unaryOp .tilde)
  | _ => none

def parseUnary : ExprReader := fun ts =>
  if c.type ts = .sizeof then parseSizeof c self ts
  else if c.type ts = .ampersand then do
    let (operand, ts) ← self.unary ts.tail
    if isAddressable operand then .ok (.addrOf operand, ts)
    else c.error ts "error: address-of requires an lvalue"
  else match prefixNode (c.type ts) with
    | some node => do
      let (operand, ts) ← self.unary ts.tail
      .ok (node operand, ts)
    | none => parsePostfix c self ts

def parseCast : ExprReader := fun ts =>
  if c.type ts = .lparen ∧ c.startsTypeName ts.tail then do
    let (t, ts) ← c.parseTypeName ts.tail
    let (_, ts) ← c.expect .rparen ts
    if c.type ts = .lbrace then
      let (base, ts) ← buildCompoundLiteral c self t ts
      parsePostfixSuffixes c self self.rounds base ts
    else if t.kind = .array ∧ t.length = 0 then
      c.error ts "error: array type in cast has omitted size"
    else
      let (operand, ts) ← self.cast ts
      let fullType := if t.kind = .pointer then some t else none
      .ok (.cast t.kind (!t.isSigned) fullType operand, ts)
  else parseUnary c self ts

/-- The operators of one level and their right operands, behind a first operand. -/
def binaryLoop (operator : ConstOperator) (operand : ExprReader) : Nat → Expr → ExprReader
  | 0, _, _ => .error outOfRounds
  | n + 1, left, ts =>
    match operator (c.type ts) with
    | none => .ok (left, ts)
    | some op => do
      let (right, ts) ← operand ts.tail
      binaryLoop operator operand n (.binaryOp op left right .void) ts

/-- A left-associative level. -/
def binaryLevel (operator : ConstOperator) (operand : ExprReader) : ExprReader := fun ts => do
  let (left, ts) ← operand ts
  binaryLoop c operator operand self.rounds left ts

def parseTerm : ExprReader := binaryLevel c self Front.multiplicativeToken (parseCast c self)

def parseAdditive : ExprReader := binaryLevel c self Front.additiveToken (parseTerm c self)

def parseShift : ExprReader := binaryLevel c self Front.shiftToken (parseAdditive c self)

def parseRelational : ExprReader := binaryLevel c self Front.relationalToken (parseShift c self)

def parseEquality : ExprReader := binaryLevel c self Front.equalityToken (parseRelational c self)

def parseBitwiseAnd : ExprReader := binaryLevel c self Front.bitwiseAndToken (parseEquality c self)

def parseBitwiseXor : ExprReader :=
  binaryLevel c self Front.bitwiseXorToken (parseBitwiseAnd c self)

def parseBitwiseOr : ExprReader := binaryLevel c self Front.bitwiseOrToken (parseBitwiseXor c self)

def parseLogicalAnd : ExprReader := binaryLevel c self Front.logicalAndToken (parseBitwiseOr c self)

def parseLogicalOr : ExprReader := binaryLevel c self Front.logicalOrToken (parseLogicalAnd c self)

def parseConditional : ExprReader := fun ts => do
  let (cond, ts) ← parseLogicalOr c self ts
  if c.type ts ≠ .question then .ok (cond, ts)
  else if c.type ts.tail = .colon then c.error ts.tail "error: expected expression after '?'"
  else
    let (trueExpr, ts) ← self.expression ts.tail
    if c.type ts ≠ .colon then c.error ts "error: expected ':' in conditional expression"
    else
      let (falseExpr, ts) ← self.conditional ts.tail
      .ok (.conditional cond trueExpr falseExpr, ts)

/-- The `=` behind a designator, and what is assigned. -/
def parseDesignated (ts : Tokens) : Except String (Expr × Tokens) :=
  if c.type ts = .dot ∨ c.type ts = .lbracket then
    c.error ts "error: chained designators not yet supported"
  else do
    let (_, ts) ← c.expect .assign ts
    self.initializer ts

def parseInitializerElement : ExprReader := fun ts =>
  if c.type ts = .dot then do
    let (field, ts) ← c.expect .identifier ts.tail
    let (value, ts) ← parseDesignated c self ts
    .ok (.designatedMember (String.ofList field.value) value, ts)
  else if c.type ts = .lbracket then do
    let (index, ts) ← c.evalConstExpr "array designator index" ts.tail
    if index < 0 then c.error ts "error: array designator index must be non-negative"
    else
      let (_, ts) ← c.expect .rbracket ts
      let (value, ts) ← parseDesignated c self ts
      .ok (.designatedIndex index.toNat value, ts)
  else self.initializer ts

/-- The elements behind the first one; a comma may stand behind the last. -/
def elementsLoop : Nat → List Expr → Reader Tokens String (List Expr)
  | 0, _, _ => .error outOfRounds
  | n + 1, es, ts =>
    if c.type ts = .comma then
      if c.type ts.tail = .rbrace then .ok (es, ts.tail)
      else do
        let (e, ts) ← parseInitializerElement c self ts.tail
        elementsLoop n (es ++ [e]) ts
    else .ok (es, ts)

/-- The operator of `a op= b`, and none for `=`; each token that is not listed stands for `|=`. -/
def compoundOperator : TokenType → Option BinaryOp
  | .assign => none
  | .plusAssign => some .add
  | .minusAssign => some .sub
  | .starAssign => some .mul
  | .slashAssign => some .div
  | .percentAssign => some .mod
  | .leftShiftAssign => some .shiftLeft
  | .rightShiftAssign => some .shiftRight
  | .ampAssign => some .bitAnd
  | .caretAssign => some .bitXor
  | _ => some .bitOr

def isAssignment (type : TokenType) : Bool :=
  type ∈ [TokenType.assign, .plusAssign, .minusAssign, .starAssign, .slashAssign, .percentAssign,
    .leftShiftAssign, .rightShiftAssign, .ampAssign, .caretAssign, .pipeAssign]

/-- What an assignment operator may stand behind. -/
def isTarget : Expr → Bool
  | .deref _ | .varRef _ | .arrayIndex _ _ | .memberAccess _ _ | .arrowAccess _ _ => true
  | _ => false

/-- `ast_clone`: a copy of the tree, node by node. -/
def astClone (e : Expr) : Expr := e

/-- The value that `lhs op= rhs` assigns. -/
def assignedValue (op : TokenType) (lhs rhs : Expr) : Expr :=
  match compoundOperator op with
  | none => rhs
  | some op => .binaryOp op (astClone lhs) rhs .void

def parseAssignmentExpression : ExprReader := fun ts =>
  if c.type ts = .identifier ∧ isAssignment (c.type ts.tail) then do
    let name := String.ofList (c.current ts).value
    let (rhs, rest) ← self.assignment ts.tail.tail
    .ok (.assignment name (assignedValue (c.type ts.tail) (.varRef name) rhs), rest)
  else do
    let (lhs, ts) ← parseConditional c self ts
    if isAssignment (c.type ts) then
      if isTarget lhs then
        let (rhs, rest) ← self.assignment ts.tail
        .ok (.assignmentTo lhs (assignedValue (c.type ts) lhs rhs), rest)
      else c.error ts "error: assignment target must be an lvalue"
    else .ok (lhs, ts)

def parseInitializer : ExprReader := fun ts =>
  if c.type ts ≠ .lbrace then parseAssignmentExpression c self ts
  else if c.type ts.tail = .rbrace then .ok (.initializerList [], ts.tail.tail)
  else do
    let (first, ts) ← parseInitializerElement c self ts.tail
    let (elements, ts) ← elementsLoop c self self.rounds [first] ts
    if c.type ts ≠ .rbrace then c.error ts "error: expected '\x7d' to close initializer list"
    else .ok (.initializerList elements, ts.tail)

/-- The operands of the comma operator behind the first one. -/
def commaLoop : Nat → Expr → ExprReader
  | 0, _, _ => .error outOfRounds
  | n + 1, left, ts =>
    if c.type ts = .comma then do
      let (right, ts) ← parseAssignmentExpression c self ts.tail
      commaLoop n (.comma left right) ts
    else .ok (left, ts)

def parseExpression : ExprReader := fun ts => do
  let (left, ts) ← parseAssignmentExpression c self ts
  commaLoop c self self.rounds left ts

end parser

/-- The parser where calls are nested at most `n` deep and loops run at most `n` times. -/
def parsers (c : Context) : Nat → Callees
  | 0 =>
    { rounds := 0
      expression := fun _ => .error outOfRounds
      assignment := fun _ => .error outOfRounds
      conditional := fun _ => .error outOfRounds
      cast := fun _ => .error outOfRounds
      unary := fun _ => .error outOfRounds
      initializer := fun _ => .error outOfRounds }
  | n + 1 =>
    { rounds := n + 1
      expression := parseExpression c (parsers c n)
      assignment := parseAssignmentExpression c (parsers c n)
      conditional := parseConditional c (parsers c n)
      cast := parseCast c (parsers c n)
      unary := parseUnary c (parsers c n)
      initializer := parseInitializer c (parsers c n) }

end ClaudeC99.Expressions
