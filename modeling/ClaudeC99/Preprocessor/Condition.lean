import ClaudeC99.HostLong
import ClaudeC99.Lib.Numeral
import ClaudeC99.Lib.Precedence
import ClaudeC99.Preprocessor.Macros

/-! The evaluator of `#if` and `#elif` conditions, after macro expansion. -/

namespace ClaudeC99.Preprocessor

open Numeral (isHexDigit digitsValue)
open Precedence (Reader chain knot)

abbrev CondReader : Type := Reader Text String Int

/-- The text after a keyword that no letter, digit or `_` follows. -/
def dropKeyword (keyword s : Text) : Option Text :=
  let after := s.drop keyword.length
  if keyword.isPrefixOf s && !after.head?.any isIdentChar then some after else none

def definedValue (macros : MacroTable) (name : Text) : Int :=
  if (macroFind macros name).isSome then 1 else 0

/-- `s` starts after `defined`. -/
def evalDefined (macros : MacroTable) (s : Text) : Except String (Int × Text) :=
  match s.dropWhile isBlank with
  | [] => .error "error: expected identifier after defined"
  | c :: rest =>
    if c = '(' then
      let start := rest.dropWhile isBlank
      match (start.dropWhile isIdentChar).dropWhile isBlank with
      | ')' :: after => .ok (definedValue macros (start.takeWhile isIdentChar), after)
      | _ => .error "error: expected ')' in defined(...)"
    else if isIdentStart c then
      let s := c :: rest
      .ok (definedValue macros (s.takeWhile isIdentChar), s.dropWhile isIdentChar)
    else .error "error: expected identifier after defined"

def isSuffixLetter (c : Char) : Bool := c == 'u' || c == 'U' || c == 'l' || c == 'L'

/-- A number and its suffix, from its first digit on. -/
def condNumber (s : Text) : Int × Text :=
  let decimal :=
    (wrap64 (digitsValue 10 (s.takeWhile Char.isDigit)),
      (s.dropWhile Char.isDigit).dropWhile isSuffixLetter)
  match s with
  | '0' :: c :: rest =>
    if c = 'x' ∨ c = 'X' then
      (wrap64 (digitsValue 16 (rest.takeWhile isHexDigit)),
        (rest.dropWhile isHexDigit).dropWhile isSuffixLetter)
    else decimal
  | _ => decimal

/-- The value of a name that macro expansion has left: 0 unless it names an object-like macro. -/
def condName (macros : MacroTable) (name : Text) : Except String Int :=
  match macroFind macros name with
  | none => .ok 0
  | some m =>
    if m.params.isSome then .ok 0
    else
      let repl := m.replacement.dropWhile isBlank
      let (neg, digits) :=
        match repl with
        | '-' :: rest => (true, rest.dropWhile isBlank)
        | _ => (false, repl)
      if digits.head?.any Char.isDigit then
        let value := wrap64 (digitsValue 10 (digits.takeWhile Char.isDigit))
        .ok (if neg then wrap64 (-value) else value)
      else .error "error: macro in #if does not expand to an integer"

def notAnOperand : String := "error: #if requires an integer constant or defined(...)"

def evalCondPrimary (macros : MacroTable) (evalCondExpr : CondReader) : CondReader := fun s =>
  let s := s.dropWhile isBlank
  match dropKeyword ['d', 'e', 'f', 'i', 'n', 'e', 'd'] s with
  | some rest => evalDefined macros rest
  | none =>
    match s with
    | [] => .error notAnOperand
    | c :: rest =>
      if c.isDigit then .ok (condNumber s)
      else if isIdentStart c then do
        let value ← condName macros (s.takeWhile isIdentChar)
        .ok (value, s.dropWhile isIdentChar)
      else if c = '(' then do
        let (value, after) ← evalCondExpr (rest.dropWhile isBlank)
        match after.dropWhile isBlank with
        | ')' :: after => .ok (value, after)
        | _ => .error "error: expected ')' in preprocessor expression"
      else .error notAnOperand

def condUnaryOp : Char → Option UnaryOp
  | '!' => some .bang
  | '-' => some .minus
  | '+' => some .plus
  | '~' => some .tilde
  | _ => none

/-- The run of unary operators, with blanks after each, and the text after it. -/
def condUnaryOps : Text → List UnaryOp × Text
  | [] => ([], [])
  | c :: rest =>
    match condUnaryOp c with
    | some op =>
      let (ops, after) := condUnaryOps (rest.dropWhile isBlank)
      (op :: ops, after)
    | none => ([], c :: rest)
  termination_by s => s.length
  decreasing_by
    have := dropWhile_length_le isBlank rest
    simp only [List.length_cons]
    omega

def evalCondUnary (macros : MacroTable) (evalCondExpr : CondReader) : CondReader := fun s => do
  let (ops, operand) := condUnaryOps s
  let (value, after) ← evalCondPrimary macros evalCondExpr operand
  -- the operator next to the operand applies first
  .ok (ops.foldr longUnary value, after)

/-- The operators of one level, each with the text after it. -/
abbrev CondOperator : Type := Text → Option (BinaryOp × Text)

def multiplicativeOp : CondOperator
  | '*' :: rest => some (.mul, rest)
  | '/' :: rest => some (.div, rest)
  | '%' :: rest => some (.mod, rest)
  | _ => none

def additiveOp : CondOperator
  | '+' :: rest => some (.add, rest)
  | '-' :: rest => some (.sub, rest)
  | _ => none

def shiftOp : CondOperator
  | '<' :: '<' :: rest => some (.shiftLeft, rest)
  | '>' :: '>' :: rest => some (.shiftRight, rest)
  | _ => none

def relationalOp : CondOperator
  | '<' :: '=' :: rest => some (.le, rest)
  | '>' :: '=' :: rest => some (.ge, rest)
  | '<' :: rest => if rest.head? = some '<' then none else some (.lt, rest)
  | '>' :: rest => if rest.head? = some '>' then none else some (.gt, rest)
  | _ => none

def equalityOp : CondOperator
  | '=' :: '=' :: rest => some (.eq, rest)
  | '!' :: '=' :: rest => some (.ne, rest)
  | _ => none

def bitwiseAndOp : CondOperator
  | '&' :: rest => if rest.head? = some '&' then none else some (.bitAnd, rest)
  | _ => none

def bitwiseXorOp : CondOperator
  | '^' :: rest => some (.bitXor, rest)
  | _ => none

def bitwiseOrOp : CondOperator
  | '|' :: rest => if rest.head? = some '|' then none else some (.bitOr, rest)
  | _ => none

def logicalAndOp : CondOperator
  | '&' :: '&' :: rest => some (.logicalAnd, rest)
  | _ => none

def logicalOrOp : CondOperator
  | '|' :: '|' :: rest => some (.logicalOr, rest)
  | _ => none

def applyCondOp (_ : Text) (op : BinaryOp) (value rhs : Int) : Except String Int :=
  match op with
  | .div =>
    if rhs = 0 then .error "error: division by zero in preprocessor expression"
    else .ok (longBinary .div value rhs)
  | .mod =>
    if rhs = 0 then .error "error: modulo by zero in preprocessor expression"
    else .ok (longBinary .mod value rhs)
  | op => .ok (longBinary op value rhs)

/-- An operator of a level and the blanks after it. -/
def nextCondOp (operator : CondOperator) (s : Text) : Except String (Option (BinaryOp × Text)) :=
  .ok ((operator s).map fun p => (p.1, p.2.dropWhile isBlank))

/-- One level of left-associative operators; blanks before an operator are skipped, also where
none follows. Every operator is a character at least, so that the length bounds the rounds. -/
def condLevel (operator : CondOperator) (operand : CondReader) : CondReader :=
  chain (List.dropWhile isBlank) List.length (nextCondOp operator) applyCondOp operand

section Levels

variable (macros : MacroTable) (evalCondExpr : CondReader)

def evalCondMultiplicative : CondReader :=
  condLevel multiplicativeOp (evalCondUnary macros evalCondExpr)

def evalCondAdditive : CondReader :=
  condLevel additiveOp (evalCondMultiplicative macros evalCondExpr)

def evalCondShift : CondReader := condLevel shiftOp (evalCondAdditive macros evalCondExpr)

def evalCondRelational : CondReader := condLevel relationalOp (evalCondShift macros evalCondExpr)

def evalCondEquality : CondReader := condLevel equalityOp (evalCondRelational macros evalCondExpr)

def evalCondBitwiseAnd : CondReader := condLevel bitwiseAndOp (evalCondEquality macros evalCondExpr)

def evalCondBitwiseXor : CondReader :=
  condLevel bitwiseXorOp (evalCondBitwiseAnd macros evalCondExpr)

def evalCondBitwiseOr : CondReader :=
  condLevel bitwiseOrOp (evalCondBitwiseXor macros evalCondExpr)

def evalCondLogicalAnd : CondReader :=
  condLevel logicalAndOp (evalCondBitwiseOr macros evalCondExpr)

def evalCondLogicalOr : CondReader :=
  condLevel logicalOrOp (evalCondLogicalAnd macros evalCondExpr)

/-- Both arms are evaluated. -/
def evalCondTernary : CondReader := fun s => do
  let (cond, after) ← evalCondLogicalOr macros evalCondExpr s
  match after.dropWhile isBlank with
  | '?' :: rest =>
    let (thenVal, after) ← evalCondExpr (rest.dropWhile isBlank)
    match after.dropWhile isBlank with
    | ':' :: rest =>
      let (elseVal, after) ← evalCondExpr (rest.dropWhile isBlank)
      .ok (if cond ≠ 0 then thenVal else elseVal, after)
    | _ => .error "error: expected ':' in ternary preprocessor expression"
  | after => .ok (cond, after)

end Levels

/-- The evaluator calls itself after a `(`, a `?` or a `:`, so that the length of the text bounds
the depth and the message of the bound is never given. -/
def evalCondExpr (macros : MacroTable) : CondReader := fun s =>
  knot notAnOperand (evalCondTernary macros) (s.length + 1) s

end ClaudeC99.Preprocessor
