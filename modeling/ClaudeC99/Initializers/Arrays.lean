import ClaudeC99.Front.Declarator
import ClaudeC99.HostLong

/-! Arrays whose first dimension is left out, at block scope, at file scope and as compound
literals: what the parser makes of the dimensions and of the initializer. -/

namespace ClaudeC99.Initializers

open Front (ParsedDeclarator pointers buildArrayTypeFromDims maxArrayDims arrayDimension)

/-- A qualifier before the type specifier; its copy of a struct type is a new one. -/
inductive Qualifier
  | none
  | const (copy : Nat)
  | volatile (copy : Nat)

def Qualifier.apply : Qualifier → CType → CType
  | none, t => t
  | const copy, t => t.typeConstCopy copy
  | volatile copy, t => t.typeVolatileCopy copy

/-- The base type of a declaration is qualified where there are stars. -/
def effectiveBase (base : CType) (qualifier : Qualifier) (stars : Nat) : CType :=
  if stars > 0 then qualifier.apply base else base

/-- The dimensions behind the ones read so far. -/
def furtherDimensions : List Nat → List Int → Except String (List Nat)
  | dims, [] => .ok dims
  | dims, length :: lengths => do
    if dims.length ≥ maxArrayDims then
      .error s!"error: too many array dimensions (max {maxArrayDims})"
    let n ← arrayDimension length
    furtherDimensions (dims ++ [n]) lengths

/-- `* name [first] [later]`: a first dimension that is left out has no slot in `arrayDims`. -/
def parseArrayDeclarator (name : String) (stars : Nat) (first : Option Int) (later : List Int) :
    Except String ParsedDeclarator := do
  match first with
  | none =>
    let dims ← furtherDimensions [] later
    pure { name, pointerCount := stars, isArray := true, arrayDims := dims }
  | some length =>
    let n ← arrayDimension length
    let dims ← furtherDimensions [n] later
    pure { name, pointerCount := stars, isArray := true, hasSize := true, arrayLength := n
           arrayDims := dims }

/-- In a type name the omitted dimension is 0. -/
def parseTypeName (base : CType) (qualifier : Qualifier) (stars : Nat) (first : Option Int)
    (later : List Int) : Except String CType := do
  let first ← first.elim (.ok 0) arrayDimension
  let dims ← furtherDimensions [first] later
  pure (buildArrayTypeFromDims (pointers (qualifier.apply base) stars) dims)

/-- One child of an initializer list. The index of `[N] =` is not negative. -/
structure InitializerElement where
  index : Option Nat
  value : Expr

inductive ArrayInitializer
  | list (elements : List InitializerElement)
  | string (length : Nat)
  | other

def notCharArray : String := "error: string initializer only supported for char arrays"

def arrayTooSmall : String := "error: array too small for string literal initializer"

/-- `length` in `parse_statement`. -/
def blockArrayLength (elem : CType) (d : ParsedDeclarator) :
    Option ArrayInitializer → Except String Nat
  | some (.list elements) => .ok (if d.hasSize then d.arrayLength else elements.length)
  | some (.string length) =>
    if elem.kind ≠ .char then .error notCharArray
    else if d.hasSize then
      if d.arrayLength < length + 1 then .error arrayTooSmall else .ok d.arrayLength
    else .ok (length + 1)
  | some .other =>
    if d.hasSize then
      .error "error: array initializer must be a brace-enclosed list or string literal"
    else .error "error: omitted array size requires string literal initializer"
  | none =>
    if d.hasSize then .ok d.arrayLength
    else .error "error: array size required unless initialized from string literal"

/-- `length` in `parse_external_declaration`. -/
def fileArrayLength (sc : StorageClass) (elem : CType) (d : ParsedDeclarator) :
    Option ArrayInitializer → Except String Nat
  | some (.list elements) =>
    if d.hasSize then
      if elements.length > d.arrayLength then
        .error s!"error: too many initializers for array '{d.name}'"
      else .ok d.arrayLength
    else .ok elements.length
  | some (.string length) =>
    if elem.kind ≠ .char then .error notCharArray
    else if d.hasSize then
      if d.arrayLength < length + 1 then .error arrayTooSmall else .ok d.arrayLength
    else .ok (length + 1)
  | some .other => .error "error: array initializer must be a brace-enclosed list or string literal"
  | none =>
    if d.hasSize then .ok d.arrayLength
    else if sc = .external then .ok 0
    else .error s!"error: array size required for file-scope declaration '{d.name}'"

/-- `array_dims[0] = length`, whatever dimension stands there. -/
def patchedDims (d : ParsedDeclarator) (length : Nat) : List Nat := length :: d.arrayDims.tail

def blockArrayType (base : CType) (qualifier : Qualifier) (d : ParsedDeclarator)
    (init : Option ArrayInitializer) : Except String CType := do
  let elem := pointers (effectiveBase base qualifier d.pointerCount) d.pointerCount
  let length ← blockArrayLength elem d init
  pure (buildArrayTypeFromDims elem (patchedDims d length))

def fileArrayType (sc : StorageClass) (base : CType) (qualifier : Qualifier)
    (d : ParsedDeclarator) (init : Option ArrayInitializer) : Except String CType := do
  let elem := pointers (effectiveBase base qualifier d.pointerCount) d.pointerCount
  let length ← fileArrayLength sc elem d init
  pure (buildArrayTypeFromDims elem (patchedDims d length))

/-- The element cursor and the largest index, both `int`s. -/
structure LengthScan where
  cur : Int := 0
  maxIdx : Int := 0

def LengthScan.step (s : LengthScan) (child : InitializerElement) : LengthScan :=
  let cur := child.index.elim s.cur fun n => wrap32 n
  ⟨wrap32 (cur + 1), if cur ≥ s.maxIdx then cur else s.maxIdx⟩

def inferCompoundLiteralArrayLength (list : List InitializerElement) : Int :=
  if list.isEmpty then 0 else wrap32 ((list.foldl LengthScan.step {}).maxIdx + 1)

/-- The type of a compound literal of array type; an array has no negative length. -/
def compoundArrayType (t : CType) (list : List InitializerElement) : CType :=
  match t with
  | .array base 0 _ =>
    let inferred := inferCompoundLiteralArrayLength list
    base.typeArray (if inferred = 0 then 1 else inferred.toNat)
  | _ => t

end ClaudeC99.Initializers
