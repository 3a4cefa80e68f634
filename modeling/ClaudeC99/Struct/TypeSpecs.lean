import ClaudeC99.Lib.StateExcept
import ClaudeC99.Struct.Members

/-! The types of a translation unit as the parser builds them: scalars, declarators, structs and
unions, each of them inside others at any depth. -/

namespace ClaudeC99.Struct

open Front (ParsedDeclarator pointers maxArrayDims arrayDimension buildArrayTypeFromDims)

/-! ### Unions -/

structure UnionState where
  maxSize : Int := 0
  maxAlign : Int := 1
  fields : List Field := []
  deriving Repr

def unionField (decl : MemberDeclaration) (d : ParsedDeclarator) (fieldType : CType)
    (s : UnionState) : Except String UnionState :=
  if (fieldType.kind = .struct ∨ fieldType.kind = .union) ∧ typeSize fieldType = 0 then
    .error ("error: field '" ++ d.name ++ "' has incomplete type\n")
  else
    let fsz := if typeSize fieldType < 1 then 1 else typeSize fieldType
    let falign := if typeAlignment fieldType < 1 then 1 else typeAlignment fieldType
    let plain := d.pointerCount = 0 ∧ ¬ d.isArray
    let field : Field := {
      name := d.name
      offset := 0
      kind := fieldType.kind
      fullType := if keepsFullType fieldType.kind then some fieldType else none
      isConst := (decl.isConst ∧ plain) ∨ d.pointerIsConst
      isVolatile := decl.isVolatile ∧ plain }
    .ok {
      maxSize := if fsz > s.maxSize then fsz else s.maxSize
      maxAlign := if falign > s.maxAlign then falign else s.maxAlign
      fields := s.fields ++ [field] }

/-- A bit-field ends in an error at its colon. -/
def unionMember (decl : MemberDeclaration) (s : UnionState) :
    MemberDeclarator → Except String UnionState
  | .unnamed _ => .error "error: expected identifier"
  | .bitField _ _ => .error "error: expected ';'"
  | .member d copy =>
    let fieldType := pointers (effectiveBase decl d copy) d.pointerCount
    if d.isArray then
      if ¬ d.hasSize then
        .error ("error: union array member '" ++ d.name ++ "' requires explicit size\n")
      else unionField decl d (buildArrayTypeFromDims fieldType d.arrayDims) s
    else unionField decl d fieldType s

def unionMembers (s : UnionState) (decl : MemberDeclaration) : Except String UnionState :=
  if decl.declarators = [] then
    if decl.base.kind = .struct ∨ decl.base.kind = .union then .ok s
    else .error "error: expected identifier"
  else decl.declarators.foldlM (unionMember decl) s

def UnionState.result (s : UnionState) : StructType :=
  let totalSize := alignUp s.maxSize s.maxAlign
  { size := if totalSize = 0 then 1 else totalSize
    alignment := s.maxAlign
    fields := s.fields }

def parseUnionSpecifier (members : List MemberDeclaration) : Except String StructType := do
  let s ← members.foldlM unionMembers {}
  .ok s.result

/-! ### Types in types -/

/-- A declarator of a member list, with the values of its bounds and widths. -/
inductive MemberSpec
  | unnamed (width : Int)
  | bitField (name : String) (width : Int)
  | object (name : String) (pointerCount : Nat)
  | array (name : String) (pointerCount : Nat) (bounds : List Int)
  | flexible (name : String) (pointerCount : Nat)

mutual

/-- `declared` is the type of an identifier: that of the specifiers below pointers and arrays, of
which the first is the outermost. -/
inductive TypeSpec
  | scalar (kind : TypeKind) (isSigned : Bool)
  | function
  | incomplete (isUnion : Bool)
  | declared (base : TypeSpec) (pointerCount : Nat) (bounds : List Int)
  | record (isUnion : Bool) (members : MemberSpecs)

inductive MemberSpecs
  | nil
  | cons (isConst isVolatile : Bool) (base : TypeSpec) (declarators : List MemberSpec)
      (rest : MemberSpecs)

end

/-- `parse_declarator` behind the name of an array. -/
def arrayBounds (bounds : List Int) : Except String (List Nat) :=
  if bounds.length > maxArrayDims then .error "error: too many array dimensions (max 8)"
  else bounds.mapM arrayDimension

def MemberSpec.parse : MemberSpec → Except String MemberDeclarator
  | .unnamed width => .ok (.unnamed width)
  | .bitField name width => .ok (.bitField { name } width)
  | .object name pointerCount => .ok (.member { name, pointerCount } 0)
  | .array name pointerCount bounds => do
    let arrayDims ← arrayBounds bounds
    .ok (.member { name, pointerCount, isArray := true, hasSize := true, arrayDims } 0)
  | .flexible name pointerCount => .ok (.member { name, pointerCount, isArray := true } 0)

theorem byte_alignment : 1 ∈ [1, 2, 4, 8] := by decide

/-- The alignments are those of scalars. -/
def layoutOf (size alignment : Nat) : RecordLayout :=
  if mem : alignment ∈ [1, 2, 4, 8] then ⟨size, alignment, mem⟩ else ⟨size, 1, byte_alignment⟩

def parseRecord (isUnion : Bool) (members : List MemberDeclaration) : Except String StructType :=
  if isUnion then parseUnionSpecifier members else parseStructSpecifier members

/-- `type_struct` and `type_union`. The size in the type stands for an `int`, which it is modulo
2³²; no size depends on a tag. -/
def recordType (isUnion : Bool) (S : StructType) : CType :=
  .record isUnion 0 0 (some (layoutOf (S.size % 2 ^ 32).toNat S.alignment.toNat)) false

mutual

def TypeSpec.parse : TypeSpec → Except String CType
  | .scalar kind isSigned => .ok (.scalar kind isSigned false)
  | .function => .ok (.function .typeVoid [])
  | .incomplete isUnion => .ok (.record isUnion 0 0 none false)
  | .declared base pointerCount bounds => do
    let t ← base.parse
    let dims ← arrayBounds bounds
    .ok (buildArrayTypeFromDims (pointers t pointerCount) dims)
  | .record isUnion members => do
    let declarations ← members.parse
    let S ← parseRecord isUnion declarations
    .ok (recordType isUnion S)

def MemberSpecs.parse : MemberSpecs → Except String (List MemberDeclaration)
  | .nil => .ok []
  | .cons isConst isVolatile base declarators rest => do
    let base ← base.parse
    let declarators ← declarators.mapM MemberSpec.parse
    let rest ← rest.parse
    .ok ({ isConst, isVolatile, base, declarators } :: rest)

end

end ClaudeC99.Struct
