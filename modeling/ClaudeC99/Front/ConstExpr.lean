import ClaudeC99.Front.Parser
import ClaudeC99.Lib.Precedence

/-! The parser's evaluator of integer constant expressions. -/

namespace ClaudeC99.Front

open Precedence (Reader chain knot)
open Preprocessor (Text)

abbrev ConstReader : Type := Reader Parser String Int

/-- The rules for type names and for operands of `sizeof`, which the evaluator leaves to the rest
of the parser. The second gives the size that `sizeof` takes from the expression it reads. -/
structure TypeRules where
  parseTypeName : Parser → Except String (CType × Parser)
  sizeofExpression : Parser → Except String (Int × Parser)

/-- What starts the type name of a cast. -/
def startsCastType (p : Parser) : Bool :=
  match p.current.type with
  | .void | .char | .short | .int | .long | .signed | .unsigned | .float | .double | .const
  | .volatile => true
  | .identifier => (parserFindTypedef p p.current.value).isSome
  | _ => false

/-- What starts the type name of a `sizeof`. -/
def startsSizeofType (p : Parser) : Bool :=
  startsCastType p ||
    match p.current.type with
    | .bool | .struct | .union | .enum => true
    | _ => false

def notConstant (context : String) : String :=
  "error: " ++ context ++ " is not an integer constant expression"

/-- The current token is `sizeof`. -/
def evalConstSizeof (rules : TypeRules) : ConstReader := fun p => do
  let p ← p.next
  if p.current.type ≠ .lparen then
    parserError p
      "error: sizeof requires a parenthesized type name in a constant expression"
  else
    let p ← p.next
    if startsSizeofType p then
      let (t, p) ← rules.parseTypeName p
      if t.kind = .void then
        parserError p "error: sizeof applied to void type in constant expression"
      else if t.kind = .array ∧ t.length = 0 then
        parserError p "error: sizeof applied to incomplete array type in constant expression"
      else
        let p ← parserExpect p .rparen
        .ok (t.size, p)
    else
      let (size, p) ← rules.sizeofExpression p
      let p ← parserExpect p .rparen
      .ok (size, p)

section Operands

variable (rules : TypeRules) (context : String) (evalConstExpr : ConstReader)

def evalConstPrimary (evalConstUnary : ConstReader) : ConstReader := fun p =>
  match p.current.type with
  | .intLiteral | .charLiteral => do
    let next ← p.next
    .ok (p.current.longValue, next)
  | .identifier =>
    match p.enumConsts.find? fun ec => ec.name = p.current.value with
    | some ec => do
      let next ← p.next
      .ok (ec.value, next)
    | none => parserError p (notConstant context)
  | .lparen => do
    let p ← p.next
    if startsCastType p then
      let (_, p) ← rules.parseTypeName p
      let p ← parserExpect p .rparen
      evalConstUnary p
    else
      let (v, p) ← evalConstExpr p
      let p ← parserExpect p .rparen
      .ok (v, p)
  | .sizeof => evalConstSizeof rules p
  | _ => parserError p (notConstant context)

def constUnaryOp : TokenType → Option UnaryOp
  | .minus => some .minus
  | .plus => some .plus
  | .tilde => some .tilde
  | .bang => some .bang
  | _ => none

/-- Every operator and every cast before an operand takes a round. -/
def evalConstUnaryRounds : Nat → ConstReader
  | 0, p => parserError p (notConstant context)
  | n + 1, p =>
    match constUnaryOp p.current.type with
    | some op => do
      let p ← p.next
      let (v, p) ← evalConstUnaryRounds n p
      .ok (longUnary op v, p)
    | none => evalConstPrimary rules context evalConstExpr (evalConstUnaryRounds n) p

/-- The tokens left are at most as many. -/
def Parser.size (p : Parser) : Nat :=
  p.lexer.rest.length + if p.current.type = .eof then 0 else 1

def evalConstUnary : ConstReader := fun p =>
  evalConstUnaryRounds rules context evalConstExpr (p.size + 1) p

end Operands

/-- The operators of one level. -/
abbrev ConstOperator : Type := TokenType → Option BinaryOp

def multiplicativeToken : ConstOperator
  | .star => some .mul
  | .slash => some .div
  | .percent => some .mod
  | _ => none

def additiveToken : ConstOperator
  | .plus => some .add
  | .minus => some .sub
  | _ => none

def shiftToken : ConstOperator
  | .leftShift => some .shiftLeft
  | .rightShift => some .shiftRight
  | _ => none

def relationalToken : ConstOperator
  | .lt => some .lt
  | .le => some .le
  | .gt => some .gt
  | .ge => some .ge
  | _ => none

def equalityToken : ConstOperator
  | .eq => some .eq
  | .ne => some .ne
  | _ => none

def bitwiseAndToken : ConstOperator := fun t => if t = .ampersand then some .bitAnd else none

def bitwiseXorToken : ConstOperator := fun t => if t = .caret then some .bitXor else none

def bitwiseOrToken : ConstOperator := fun t => if t = .pipe then some .bitOr else none

def logicalAndToken : ConstOperator := fun t => if t = .andAnd then some .logicalAnd else none

def logicalOrToken : ConstOperator := fun t => if t = .orOr then some .logicalOr else none

def nextConstOp (operator : ConstOperator) (p : Parser) :
    Except String (Option (BinaryOp × Parser)) :=
  match operator p.current.type with
  | none => .ok none
  | some op => do
    let p ← p.next
    .ok (some (op, p))

def applyConstOp (p : Parser) (op : BinaryOp) (val rhs : Int) : Except String Int :=
  if (op = .div ∨ op = .mod) ∧ rhs = 0 then
    parserError p "error: division by zero in constant expression"
  else .ok (longBinary op val rhs)

/-- One level of left-associative operators. Every operator is a character of the source at least,
so that the tokens left bound the rounds. -/
def constLevel (operator : ConstOperator) (operand : ConstReader) : ConstReader :=
  chain id Parser.size (nextConstOp operator) applyConstOp operand

section Levels

variable (rules : TypeRules) (context : String) (evalConstExpr : ConstReader)

def evalConstMultiplicative : ConstReader :=
  constLevel multiplicativeToken (evalConstUnary rules context evalConstExpr)

def evalConstAdditive : ConstReader :=
  constLevel additiveToken (evalConstMultiplicative rules context evalConstExpr)

def evalConstShift : ConstReader :=
  constLevel shiftToken (evalConstAdditive rules context evalConstExpr)

def evalConstRelational : ConstReader :=
  constLevel relationalToken (evalConstShift rules context evalConstExpr)

def evalConstEquality : ConstReader :=
  constLevel equalityToken (evalConstRelational rules context evalConstExpr)

def evalConstBitwiseAnd : ConstReader :=
  constLevel bitwiseAndToken (evalConstEquality rules context evalConstExpr)

def evalConstBitwiseXor : ConstReader :=
  constLevel bitwiseXorToken (evalConstBitwiseAnd rules context evalConstExpr)

def evalConstBitwiseOr : ConstReader :=
  constLevel bitwiseOrToken (evalConstBitwiseXor rules context evalConstExpr)

def evalConstLogicalAnd : ConstReader :=
  constLevel logicalAndToken (evalConstBitwiseOr rules context evalConstExpr)

def evalConstLogicalOr : ConstReader :=
  constLevel logicalOrToken (evalConstLogicalAnd rules context evalConstExpr)

/-- Both arms are evaluated. -/
def evalConstConditional : ConstReader := fun p => do
  let (cond, p) ← evalConstLogicalOr rules context evalConstExpr p
  if p.current.type ≠ .question then .ok (cond, p)
  else
    let p ← p.next
    let (trueVal, p) ← evalConstExpr p
    let p ← parserExpect p .colon
    let (falseVal, p) ← evalConstExpr p
    .ok (if cond ≠ 0 then trueVal else falseVal, p)

end Levels

/-- The evaluator calls itself after a `(`, a `?` or a `:`, so that the tokens left bound the
depth and the message of the bound is never given. -/
def evalConstExpr (rules : TypeRules) (context : String) : ConstReader := fun p =>
  knot (notConstant context) (evalConstConditional rules context) (p.size + 1) p

end ClaudeC99.Front
