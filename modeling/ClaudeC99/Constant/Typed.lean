import ClaudeC99.HostLong
import ClaudeC99.Lib.Derivations
import ClaudeC99.Lib.IntArith

/-! Constant expressions with the types and values of C99, and what the evaluators make of them. -/

namespace ClaudeC99.Constant

open IntArith (IntType UnOp BinOp evalUnary evalBinary truth)
open Precedence (Trial)

/-- Why an evaluator gives an expression up. -/
inductive Fault
  | division | unread
  deriving DecidableEq, Repr

/-- An operand: its type and its value in C, where it has one, and what an evaluator takes it
for. -/
structure Operand where
  type : IntType
  value : Option Int
  read : Except Fault Int

/-- An operator before its operand, or a cast to an integer type. `known` tells whether the
parser takes what stands between the parentheses for a type name. -/
inductive Prefix
  | op (op : UnaryOp)
  | cast (t : IntType) (known : Bool)

abbrev CExpr : Type := Precedence.Tree Operand Prefix BinaryOp

def unaryOf : UnaryOp → UnOp
  | .plus => .plus
  | .minus => .minus
  | .tilde => .complement
  | .bang => .not

/-- The operators of C that evaluate both operands. -/
def binaryOf : BinaryOp → Option BinOp
  | .add => some .add
  | .sub => some .sub
  | .mul => some .mul
  | .div => some .div
  | .mod => some .mod
  | .bitAnd => some .and
  | .bitOr => some .or
  | .bitXor => some .xor
  | .shiftLeft => some .shl
  | .shiftRight => some .shr
  | .eq => some .eq
  | .ne => some .ne
  | .lt => some .lt
  | .le => some .le
  | .gt => some .gt
  | .ge => some .ge
  | .logicalAnd | .logicalOr => none

def isDivision (op : BinaryOp) : Bool := op = .div || op = .mod

section C99

-- the type of truth values: `int`, which acts as `intmax_t` in a condition
variable (flag : IntType)

def typeOf : CExpr → IntType
  | .atom a => a.type
  | .unary (.op .bang) _ => flag
  | .unary (.op _) e => (typeOf e).promote
  | .unary (.cast t _) _ => t
  | .binary op l r =>
    match binaryOf op with
    | none => flag
    | some o =>
      if o.test.isSome then flag
      else if o.isShift then (typeOf l).promote
      else (typeOf l).common (typeOf r)
  | .conditional _ t e => (typeOf t).common (typeOf e)

/-- The value of an operator that evaluates both operands. -/
def binaryIn (op : BinaryOp) (s t : IntType) (x y : Int) : Option Int := do
  let o ← binaryOf op
  (evalBinary o (s, x) (t, y)).map Prod.snd

def prefixIn (p : Prefix) (t : IntType) (x : Int) : Option Int :=
  match p with
  | .op op => (evalUnary (unaryOf op) (t, x)).map Prod.snd
  | .cast u _ => some (u.convert x)

/-- The value that C99 gives; an operand that is not evaluated needs none. -/
def cValue : CExpr → Option Int
  | .atom a => a.value
  | .unary p e => do prefixIn p (typeOf flag e) (← cValue e)
  | .binary .logicalAnd l r => do
    if (← cValue l) = 0 then some 0 else some (truth ((← cValue r) ≠ 0))
  | .binary .logicalOr l r => do
    if (← cValue l) = 0 then some (truth ((← cValue r) ≠ 0)) else some 1
  | .binary op l r => do
    binaryIn op (typeOf flag l) (typeOf flag r) (← cValue l) (← cValue r)
  | .conditional c t e => do
    if (← cValue c) = 0 then some (((typeOf flag t).common (typeOf flag e)).convert (← cValue e))
    else some (((typeOf flag t).common (typeOf flag e)).convert (← cValue t))

/-- Evaluating the expression as C99 does divides by zero. -/
def divides : CExpr → Bool
  | .atom _ => false
  | .unary _ e => divides e
  | .binary .logicalAnd l r => divides l || (cValue flag l).any (· ≠ 0) && divides r
  | .binary .logicalOr l r => divides l || cValue flag l = some 0 && divides r
  | .binary op l r => divides l || divides r || isDivision op && cValue flag r = some 0
  | .conditional c t e =>
    divides c || (cValue flag c).any (· ≠ 0) && divides t || cValue flag c = some 0 && divides e

end C99

/-! ### Signed 64-bit arithmetic -/

def prefixFault : Prefix → Option Fault
  | .cast _ false => some .unread
  | _ => none

def prefixLong : Prefix → Int → Int
  | .op op, v => longUnary op v
  | .cast _ _, v => v

def divideLong (op : BinaryOp) (a b : Int) : Except Fault Int :=
  if isDivision op = true ∧ b = 0 then .error .division else .ok (longBinary op a b)

/-- Every operand is evaluated, every value is a `long`, and casts change nothing. -/
def longTrial : Trial Fault Int Operand Prefix BinaryOp where
  atom := Operand.read
  refuses := prefixFault
  unary := prefixLong
  binary := divideLong
  conditional c t e := if c ≠ 0 then t else e

def reading (e : CExpr) : Except Fault Int := longTrial.eval e

end ClaudeC99.Constant
