import Mathlib.Data.BitVec

/-! Integer types and integer operators of C99 on an LP64 machine with two's complement. -/

namespace IntArith

inductive Rank
  | bool | char | short | int | long | longLong
  deriving DecidableEq, Repr

structure IntType where
  rank : Rank
  signed : Bool
  bool_unsigned : rank = .bool → signed = false := by decide
  deriving DecidableEq, Repr

def Rank.level : Rank → Nat
  | .bool => 0
  | .char => 1
  | .short => 2
  | .int => 3
  | .long => 4
  | .longLong => 5

namespace IntType

def int : IntType := { rank := .int, signed := true }

def width (t : IntType) : Nat :=
  match t.rank with
  | .bool => 1
  | .char => 8
  | .short => 16
  | .int => 32
  | .long | .longLong => 64

def min (t : IntType) : Int := if t.signed then -2 ^ (t.width - 1) else 0

def max (t : IntType) : Int := if t.signed then 2 ^ (t.width - 1) - 1 else 2 ^ t.width - 1

/-- The values of a type. -/
def Holds (t : IntType) (v : Int) : Prop := t.min ≤ v ∧ v ≤ t.max

instance (t : IntType) (v : Int) : Decidable (t.Holds v) := inferInstanceAs (Decidable (_ ∧ _))

/-- Conversion to a type; into a signed type it keeps the low bits. -/
def convert (t : IntType) (v : Int) : Int :=
  if t.rank = .bool then if v = 0 then 0 else 1
  else if t.signed then v.bmod (2 ^ t.width)
  else v % 2 ^ t.width

/-- The integer promotions: `int` holds every value of the types of lower rank. -/
def promote (t : IntType) : IntType := if t.rank.level < Rank.int.level then int else t

/-- The usual arithmetic conversions. -/
def common (t₁ t₂ : IntType) : IntType :=
  let a := t₁.promote
  let b := t₂.promote
  if a.signed = b.signed then
    if a.rank.level < b.rank.level then b else a
  else
    let s := if a.signed then a else b
    let u := if a.signed then b else a
    if s.rank.level ≤ u.rank.level then u
    else if u.width < s.width then s
    else ⟨s.rank, false, fun _ => rfl⟩

/-- An arithmetic result in a type: out of a signed type's range it is undefined. -/
def fit (t : IntType) (v : Int) : Option Int :=
  if t.signed then if t.Holds v then some v else none else some (t.convert v)

end IntType

inductive UnOp
  | plus | minus | complement | not
  deriving DecidableEq, Repr

inductive BinOp
  | add | sub | mul | div | mod | and | or | xor | shl | shr | lt | le | gt | ge | eq | ne
  deriving DecidableEq, Repr

abbrev Value := IntType × Int

def truth (b : Bool) : Int := if b then 1 else 0

def BinOp.test : BinOp → Option (Int → Int → Bool)
  | .lt => some fun a b => a < b
  | .le => some fun a b => a ≤ b
  | .gt => some fun a b => a > b
  | .ge => some fun a b => a ≥ b
  | .eq => some fun a b => a = b
  | .ne => some fun a b => a ≠ b
  | _ => none

def BinOp.isShift : BinOp → Bool
  | .shl | .shr => true
  | _ => false

/-- An arithmetic or bitwise operator on two values of one type. -/
def BinOp.arith (op : BinOp) (t : IntType) (a b : Int) : Option Int :=
  let bits (f : BitVec t.width → BitVec t.width → BitVec t.width) :=
    some (t.convert (f (.ofInt _ a) (.ofInt _ b)).toInt)
  match op with
  | .add => t.fit (a + b)
  | .sub => t.fit (a - b)
  | .mul => t.fit (a * b)
  | .div => if b = 0 then none else t.fit (a.tdiv b)
  | .mod => if b = 0 then none else (t.fit (a.tdiv b)).map fun _ => a.tmod b
  | .and => bits (· &&& ·)
  | .or => bits (· ||| ·)
  | .xor => bits (· ^^^ ·)
  | _ => none

/-- A shift of a value of a promoted type. A negative value is shifted right arithmetically, and
not to the left. -/
def BinOp.shift (op : BinOp) (t : IntType) (a count : Int) : Option Int :=
  if count < 0 ∨ t.width ≤ count then none
  else
    match op with
    | .shl => if t.signed ∧ a < 0 then none else t.fit (a * 2 ^ count.toNat)
    | .shr => some (a / 2 ^ count.toNat)
    | _ => none

def evalUnary (op : UnOp) (x : Value) : Option Value :=
  let t := x.1.promote
  match op with
  | .plus => some (t, x.2)
  | .minus => (t.fit (-x.2)).map (t, ·)
  | .complement => some (t, t.convert (-x.2 - 1))
  | .not => some (.int, truth (x.2 = 0))

/-- `none` where C leaves the result undefined. -/
def evalBinary (op : BinOp) (x y : Value) : Option Value :=
  let t := x.1.common y.1
  match op.test with
  | some test => some (.int, truth (test (t.convert x.2) (t.convert y.2)))
  | none =>
    if op.isShift then (op.shift x.1.promote x.2 y.2).map (x.1.promote, ·)
    else (op.arith t (t.convert x.2) (t.convert y.2)).map (t, ·)

@[simp] theorem IntType.convert_zero (t : IntType) : t.convert 0 = 0 := by
  simp [convert]

theorem IntType.convert_of_holds {t : IntType} {v : Int} (h : t.Holds v) : t.convert v = v := by
  obtain ⟨rank, signed, h_bool⟩ := t
  obtain ⟨h_min, h_max⟩ := h
  cases rank with
  | bool =>
    cases h_bool rfl
    simp only [convert, min, max, width, if_true, Bool.false_eq_true, if_false] at *
    split <;> omega
  | _ =>
    cases signed <;>
      simp only [convert, min, max, width, if_true, Bool.false_eq_true, if_false, reduceCtorEq,
        Int.bmod_def] at * <;>
      omega

end IntArith
