import ClaudeC99.CType

/-! Declarators as `parse_declarator` hands them to its callers. -/

namespace ClaudeC99.Front

/-- The dimensions of an array are the positive values of their expressions: `(int)` changes them
only from 2³¹ on, and no size modulo 2³². -/
structure ParsedDeclarator where
  name : String
  pointerCount : Nat := 0
  isArray : Bool := false
  hasSize : Bool := false
  arrayLength : Nat := 0
  arrayDims : List Nat := []
  isFunction : Bool := false
  isFuncPointer : Bool := false
  fpOuterStars : Nat := 0
  fpInnerStars : Nat := 0
  fpParamTypes : List CType := []
  pointerIsConst : Bool := false
  isPtrToArray : Bool := false
  ptrToArrayLength : Nat := 0
  ptrToArrayHasSize : Bool := false
  isFuncReturningFp : Bool := false
  ownParamTypes : List CType := []
  ownIsNoPrototype : Bool := false
  deriving Repr

def pointers (t : CType) : Nat → CType
  | 0 => t
  | n + 1 => pointers t.typePointer n

def maxArrayDims : Nat := 8

def arrayDimension (length : Int) : Except String Nat :=
  if length ≤ 0 then .error "error: array size must be greater than zero" else .ok length.toNat

/-- Inside-out: the first dimension is the outermost. -/
def buildArrayTypeFromDims (elemType : CType) (dims : List Nat) : CType :=
  dims.foldr (fun n t => t.typeArray n) elemType

def buildFpType (baseType : CType) (d : ParsedDeclarator) : CType :=
  pointers (.function (pointers baseType d.fpOuterStars) d.fpParamTypes) d.fpInnerStars

end ClaudeC99.Front
