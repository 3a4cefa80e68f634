import ClaudeC99.HostLong
import ClaudeC99.Lib.Numeral
import ClaudeC99.Lib.Precedence
import ClaudeC99.Preprocessor.Macros

/-! Integer constant expressions as C has them: their text and their value. -/

namespace ClaudeC99.Constant

open Numeral (isHexDigit digitsValue)
open Preprocessor (Text)

def isSuffix (c : Char) : Bool := c == 'u' || c == 'U' || c == 'l' || c == 'L'

/-- A decimal or hexadecimal literal. `mark` is the `x` or `X` of a hexadecimal one. A decimal
literal of several digits does not start with 0, which would make it octal. -/
structure Literal where
  mark : Option Char
  digits : Text
  suffix : Text
  mark_x : ∀ c ∈ mark, c = 'x' ∨ c = 'X'
  digits_ne : digits ≠ []
  digits_ok : ∀ c ∈ digits, if mark.isSome then isHexDigit c else c.isDigit
  not_octal : mark = none → digits.head? = some '0' → digits = ['0']
  suffix_ok : ∀ c ∈ suffix, isSuffix c
  suffix_le : (suffix.countP fun c => c == 'L' || c == 'l') ≤ 2
  deriving DecidableEq, Repr

def Literal.base (a : Literal) : Nat := if a.mark.isSome then 16 else 10

def Literal.text (a : Literal) : Text :=
  (match a.mark with
    | some x => ['0', x]
    | none => []) ++ a.digits ++ a.suffix

def Literal.value (a : Literal) : Nat := digitsValue a.base a.digits

abbrev Tree : Type := Precedence.Tree Literal UnaryOp BinaryOp

abbrev Word : Type := Precedence.Word Literal UnaryOp BinaryOp

def precedence : BinaryOp → Nat
  | .logicalOr => 1
  | .logicalAnd => 2
  | .bitOr => 3
  | .bitXor => 4
  | .bitAnd => 5
  | .eq | .ne => 6
  | .lt | .le | .gt | .ge => 7
  | .shiftLeft | .shiftRight => 8
  | .add | .sub => 9
  | .mul | .div | .mod => 10

def grammar : Precedence.Grammar BinaryOp where
  levels := 10
  level := precedence
  level_pos := by
    intro op
    cases op <;> decide
  level_le := by
    intro op
    cases op <;> decide

def unaryChar : UnaryOp → Char
  | .plus => '+'
  | .minus => '-'
  | .tilde => '~'
  | .bang => '!'

def binaryText : BinaryOp → Text
  | .add => ['+']
  | .sub => ['-']
  | .mul => ['*']
  | .div => ['/']
  | .mod => ['%']
  | .bitAnd => ['&']
  | .bitOr => ['|']
  | .bitXor => ['^']
  | .shiftLeft => ['<', '<']
  | .shiftRight => ['>', '>']
  | .eq => ['=', '=']
  | .ne => ['!', '=']
  | .lt => ['<']
  | .le => ['<', '=']
  | .gt => ['>']
  | .ge => ['>', '=']
  | .logicalAnd => ['&', '&']
  | .logicalOr => ['|', '|']

def wordText : Word → Text
  | .atom a => a.text
  | .unary op => [unaryChar op]
  | .binary op => binaryText op
  | .openParen => ['(']
  | .closeParen => [')']
  | .question => ['?']
  | .colon => [':']

/-- Words with a blank before each, and what comes after them. -/
def spaced (ws : List Word) (rest : Text) : Text :=
  ws.foldr (fun w t => ' ' :: (wordText w ++ t)) rest

/-- Words joined by single blanks. -/
def joined : List Word → Text → Text
  | [], rest => rest
  | w :: ws, rest => wordText w ++ spaced ws rest

/-- The text of a tree with the parentheses that precedence requires. -/
def text (e : Tree) : Text := joined (e.words grammar) []

/-- The values of a signed 64-bit integer. -/
def fit (v : Int) : Option Int := if -2 ^ 63 ≤ v ∧ v < 2 ^ 63 then some v else none

def literalValue (a : Literal) : Option Int := fit a.value

def unaryValue : UnaryOp → Int → Option Int
  | .plus, v => some v
  | .minus, v => fit (-v)
  | .tilde, v => some (-v - 1)
  | .bang, v => some (if v = 0 then 1 else 0)

def truth (b : Bool) : Int := if b then 1 else 0

/-- Signed 64-bit arithmetic. It is undefined where it overflows, for a divisor 0 and for a shift
count outside 0 to 63. A remainder overflows where its quotient does. -/
def binaryValue (op : BinaryOp) (a b : Int) : Option Int :=
  let bits (f : BitVec 64 → BitVec 64 → BitVec 64) := some (f (.ofInt 64 a) (.ofInt 64 b)).toInt
  match op with
  | .add => fit (a + b)
  | .sub => fit (a - b)
  | .mul => fit (a * b)
  | .div => if b = 0 then none else fit (a.tdiv b)
  | .mod => if b = 0 then none else (fit (a.tdiv b)).bind fun _ => fit (a.tmod b)
  | .bitAnd => bits (· &&& ·)
  | .bitOr => bits (· ||| ·)
  | .bitXor => bits (· ^^^ ·)
  | .shiftLeft => if 0 ≤ b ∧ b < 64 then fit (a * 2 ^ b.toNat) else none
  | .shiftRight => if 0 ≤ b ∧ b < 64 then (fit a).map (· / 2 ^ b.toNat) else none
  | .eq => some (truth (a = b))
  | .ne => some (truth (a ≠ b))
  | .lt => some (truth (a < b))
  | .le => some (truth (a ≤ b))
  | .gt => some (truth (a > b))
  | .ge => some (truth (a ≥ b))
  | .logicalAnd => some (truth (a ≠ 0 ∧ b ≠ 0))
  | .logicalOr => some (truth (a ≠ 0 ∨ b ≠ 0))

/-- What a tree stands for. Every part of it has to have a value, also an arm that `?:` does not
choose and a right operand that the left one decides. -/
def meaning : Precedence.Meaning Int Literal UnaryOp BinaryOp where
  atom := literalValue
  unary := unaryValue
  binary := binaryValue
  conditional c t e := if c ≠ 0 then t else e

def value (e : Tree) : Option Int := meaning.eval e

theorem fit_eq_some {v w : Int} : fit v = some w ↔ (-2 ^ 63 ≤ v ∧ v < 2 ^ 63) ∧ v = w := by
  simp [fit]

theorem fits_of_literal {a : Literal} {v : Int} (value : meaning.atom a = some v) :
    (-2 ^ 63 ≤ (a.value : Int) ∧ (a.value : Int) < 2 ^ 63) ∧ (a.value : Int) = v := by
  rw [← fit_eq_some]
  simpa only [meaning, literalValue] using value

theorem wrap64_of_fits {v : Int} (fits : -2 ^ 63 ≤ v ∧ v < 2 ^ 63) : wrap64 v = v := by
  rw [wrap64, BitVec.toInt_ofInt]
  exact Int.bmod_eq_of_le (by omega) (by omega)

theorem longUnary_of_value {op : UnaryOp} {v w : Int} (value : unaryValue op v = some w) :
    longUnary op v = w := by
  cases op with
  | minus =>
    obtain ⟨fits, rfl⟩ := fit_eq_some.mp value
    exact wrap64_of_fits fits
  | _ => exact Option.some.inj value

/-- A shift count in range reaches the host machine as it is. -/
theorem count_of_range {b : Int} (range : 0 ≤ b ∧ b < 64) :
    (BitVec.ofInt 64 b).toNat % 64 = b.toNat := by
  rw [BitVec.toNat_ofInt]
  omega

theorem longBinary_of_value {op : BinaryOp} {a b w : Int} (value : binaryValue op a b = some w) :
    longBinary op a b = w ∧ (op = .div ∨ op = .mod → b ≠ 0) := by
  cases op with
  | add | sub | mul =>
    obtain ⟨fits, rfl⟩ := fit_eq_some.mp value
    exact ⟨wrap64_of_fits fits, by simp⟩
  | div =>
    simp only [binaryValue, Option.ite_none_left_eq_some] at value
    obtain ⟨nonzero, value⟩ := value
    obtain ⟨fits, rfl⟩ := fit_eq_some.mp value
    exact ⟨wrap64_of_fits fits, fun _ => nonzero⟩
  | mod =>
    simp only [binaryValue, Option.ite_none_left_eq_some] at value
    obtain ⟨nonzero, value⟩ := value
    obtain ⟨_, _, value⟩ := Option.bind_eq_some_iff.mp value
    obtain ⟨fits, rfl⟩ := fit_eq_some.mp value
    exact ⟨wrap64_of_fits fits, fun _ => nonzero⟩
  | shiftLeft =>
    simp only [binaryValue, Option.ite_none_right_eq_some] at value
    obtain ⟨range, value⟩ := value
    obtain ⟨fits, rfl⟩ := fit_eq_some.mp value
    refine ⟨?_, by simp⟩
    have shifted : BitVec.ofInt 64 a <<< b.toNat = BitVec.ofInt 64 (a * 2 ^ b.toNat) := by
      rw [BitVec.shiftLeft_eq_mul_twoPow, BitVec.ofInt_mul]
      congr 1
      apply BitVec.eq_of_toNat_eq
      rw [BitVec.toNat_twoPow, BitVec.toNat_ofInt]
      norm_cast
    simp only [longBinary, count_of_range range, shifted]
    exact wrap64_of_fits fits
  | shiftRight =>
    simp only [binaryValue, Option.ite_none_right_eq_some, Option.map_eq_some_iff] at value
    obtain ⟨range, v, value, rfl⟩ := value
    obtain ⟨fits, rfl⟩ := fit_eq_some.mp value
    refine ⟨?_, by simp⟩
    simp only [longBinary, count_of_range range, BitVec.toInt_sshiftRight]
    have same := wrap64_of_fits fits
    rw [wrap64] at same
    rw [same, Int.shiftRight_eq_div_pow]
    simp
  | _ => exact ⟨Option.some.inj value, by simp⟩

end ClaudeC99.Constant
