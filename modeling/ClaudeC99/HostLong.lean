import ClaudeC99.Ast
import Mathlib

/-! The compiler's own arithmetic on `int` and `long`. -/

namespace ClaudeC99

def wrap64 (n : Int) : Int := (BitVec.ofInt 64 n).toInt

/-- Arithmetic on `int`, and `(int)` of a `long`. -/
def wrap32 (n : Int) : Int := (BitVec.ofInt 32 n).toInt

theorem wrap32_of_fits {n : Int} (above : -2 ^ 31 ≤ n) (below : n < 2 ^ 31) : wrap32 n = n := by
  rw [wrap32, BitVec.toInt_ofInt]
  exact Int.bmod_eq_of_le (by omega) (by omega)

/-- `strtol` with base 0, saturating at the ends of `long`. -/
def strtol (value : NumText) : Int := max (-(2 ^ 63)) (min value.toInt (2 ^ 63 - 1))

def longUnary : UnaryOp → Int → Int
  | .plus, v => v
  | .minus, v => wrap64 (-v)
  | .tilde, v => -v - 1
  | .bang, v => if v = 0 then 1 else 0

/-- A binary operator on two `long`s whose divisor is not 0. Where `long` overflows the result
wraps, and a shift count is taken modulo 64, as the host machine does. -/
def longBinary (op : BinaryOp) (lhs rhs : Int) : Int :=
  let l := BitVec.ofInt 64 lhs
  let r := BitVec.ofInt 64 rhs
  let truth (b : Bool) : Int := if b then 1 else 0
  match op with
  | .add => wrap64 (lhs + rhs)
  | .sub => wrap64 (lhs - rhs)
  | .mul => wrap64 (lhs * rhs)
  | .div => wrap64 (lhs.tdiv rhs)
  | .mod => wrap64 (lhs.tmod rhs)
  | .bitAnd => (l &&& r).toInt
  | .bitOr => (l ||| r).toInt
  | .bitXor => (l ^^^ r).toInt
  | .shiftLeft => (l <<< (r.toNat % 64)).toInt
  | .shiftRight => (l.sshiftRight (r.toNat % 64)).toInt
  | .lt => truth (lhs < rhs)
  | .le => truth (lhs ≤ rhs)
  | .gt => truth (lhs > rhs)
  | .ge => truth (lhs ≥ rhs)
  | .eq => truth (lhs = rhs)
  | .ne => truth (lhs ≠ rhs)
  | .logicalAnd => truth (lhs ≠ 0 ∧ rhs ≠ 0)
  | .logicalOr => truth (lhs ≠ 0 ∨ rhs ≠ 0)

end ClaudeC99
