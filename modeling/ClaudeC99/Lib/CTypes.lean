import ClaudeC99.Lib.IntArith

/-! Types of C expressions, without qualifiers, and the conversions between them. -/

namespace CTypes

open IntArith (IntType)

mutual

inductive Ty
  | void
  | integer (t : IntType)
  | float
  | double
  | pointer (target : Ty)
  | array (element : Ty) (length : Nat)
  | function (result : Ty) (params : Params)
  | record (tag : Nat)
  deriving DecidableEq, Repr

inductive Params
  | nil
  | cons (first : Ty) (rest : Params)
  deriving DecidableEq, Repr

end

namespace Ty

def int : Ty := integer .int

def long : Ty := integer { rank := .long, signed := true }

def unsignedLong : Ty := integer { rank := .long, signed := false }

/-- Arrays and functions become pointers in an expression. -/
def decay : Ty → Ty
  | array element _ => pointer element
  | function result params => pointer (function result params)
  | t => t

def isScalar : Ty → Bool
  | integer _ | float | double | pointer _ => true
  | _ => false

/-- The integer promotions; floating types stay. -/
def promote : Ty → Option Ty
  | integer t => some (integer t.promote)
  | float => some float
  | double => some double
  | _ => none

/-- The usual arithmetic conversions. -/
def arithmetic : Ty → Ty → Option Ty
  | integer s, integer t => some (integer (s.common t))
  | double, integer _ | double, float | double, double | integer _, double | float, double =>
    some double
  | float, integer _ | float, float | integer _, float => some float
  | _, _ => none

def integral : Ty → Ty → Option Ty
  | integer s, integer t => some (integer (s.common t))
  | _, _ => none

end Ty

/-- An operand after decay, and whether it is a null pointer constant. -/
structure Operand where
  type : Ty
  isNull : Bool

namespace Operand

/-- Whether the operands of `==` and `!=` may be compared. -/
def equatable (a b : Operand) : Bool :=
  match a.type, b.type with
  | .pointer s, .pointer t => s = t ∨ s = .void ∨ t = .void
  | .pointer _, .integer _ => b.isNull
  | .integer _, .pointer _ => a.isNull
  | s, t => (s.arithmetic t).isSome

def ordered (a b : Operand) : Bool :=
  match a.type, b.type with
  | .pointer s, .pointer t => s = t
  | s, t => (s.arithmetic t).isSome

/-- The common type of the arms of `?:`. -/
def merge (a b : Operand) : Option Ty :=
  match a.type, b.type with
  | .pointer s, .pointer t =>
    if s = t then some (.pointer s)
    else if s = .void then some (.pointer (if a.isNull then t else .void))
    else if t = .void then some (.pointer (if b.isNull then s else .void))
    else none
  | .pointer s, .integer _ => if b.isNull then some (.pointer s) else none
  | .integer _, .pointer t => if a.isNull then some (.pointer t) else none
  | .void, .void => some .void
  | .record s, .record t => if s = t then some (.record s) else none
  | s, t => s.arithmetic t

/-- Whether the operand may be assigned to an object of a type. -/
def assignable (target : Ty) (a : Operand) : Bool :=
  match target, a.type with
  | .pointer s, .pointer t => s = t ∨ s = .void ∨ t = .void
  | .pointer _, .integer _ => a.isNull
  | .integer s, .pointer _ => s.rank = .bool
  | .record s, .record t => s = t
  | s, t => (s.arithmetic t).isSome

/-- Arguments past the parameters, of a variadic function or without a prototype, are not
checked. -/
def fit : Params → List Operand → Bool
  | .cons t ts, a :: rest => a.assignable t && fit ts rest
  | _, _ => true

end Operand

/-- An operand of type `t` beside one of type `other` has to be a null pointer constant. -/
def nullNeeded (t other : Ty) : Bool :=
  match t, other with
  | .integer _, .pointer _ => true
  | _, _ => false

/-- Whether an arm of type `t` is a null pointer constant decides the type of a `?:`. -/
def nullDecides (t other : Ty) : Bool :=
  match t, other with
  | .integer _, .pointer _ => true
  | .pointer s, .pointer target => s = .void ∧ target ≠ .void
  | _, _ => false

namespace Operand

variable {s t u : Ty} {n m : Bool}

theorem merge_iff (n' m' : Bool) (h_merge : merge ⟨s, n⟩ ⟨t, m⟩ = some u) :
    merge ⟨s, n'⟩ ⟨t, m'⟩ = some u ↔
      (nullDecides s t = true → n' = n) ∧ (nullDecides t s = true → m' = m) := by
  cases s <;> cases t <;> simp_all [merge, nullDecides]
  case pointer.pointer s t => grind

theorem equatable_iff (n' m' : Bool) (h_equatable : equatable ⟨s, n⟩ ⟨t, m⟩ = true) :
    equatable ⟨s, n'⟩ ⟨t, m'⟩ = true ↔
      (nullNeeded s t = true → n' = n) ∧ (nullNeeded t s = true → m' = m) := by
  cases s <;> cases t <;> simp_all [equatable, nullNeeded]

theorem assignable_iff (n' : Bool) (h_assignable : assignable t ⟨s, n⟩ = true) :
    assignable t ⟨s, n'⟩ = true ↔ (nullNeeded s t = true → n' = n) := by
  cases s <;> cases t <;> simp_all [assignable, nullNeeded]

end Operand

end CTypes
