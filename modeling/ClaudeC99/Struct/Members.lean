import ClaudeC99.Front.Declarator
import ClaudeC99.HostLong
import Mathlib.Data.Int.Bitwise

/-! The layout of a struct while its member list is parsed: base types, declarators and bit-field
widths are those the parser has read. -/

namespace ClaudeC99.Struct

open Front (ParsedDeclarator pointers buildArrayTypeFromDims)

/-- A row of the field table; its numbers are C `int`s. -/
structure Field where
  name : String
  offset : Int
  kind : TypeKind
  fullType : Option CType := none
  isConst : Bool := false
  isVolatile : Bool := false
  isBitfield : Bool := false
  bitWidth : Int := 0
  bitOffset : Int := 0
  isFlexibleArray : Bool := false
  deriving Repr

inductive MemberDeclarator
  | unnamed (width : Int)
  | bitField (d : ParsedDeclarator) (width : Int)
  /-- `copy` tells the qualified copy of the base type from other types. -/
  | member (d : ParsedDeclarator) (copy : Nat)

structure MemberDeclaration where
  isConst : Bool
  isVolatile : Bool
  base : CType
  declarators : List MemberDeclarator

structure LayoutState where
  currentOffset : Int := 0
  maxAlign : Int := 1
  fields : List Field := []
  bfUnitOffset : Int := -1
  bfUnitSize : Int := 0
  bfBitsUsed : Int := 0
  hasFlexibleArray : Bool := false
  deriving Repr

def typeSize (t : CType) : Int := wrap32 t.size

def typeAlignment (t : CType) : Int := t.alignment

/-- `(offset + align - 1) & ~(align - 1)` -/
def alignUp (offset align : Int) : Int :=
  Int.land (wrap32 (offset + align - 1)) (Int.not (align - 1))

def unitSize (base : CType) : Int := if typeSize base < 1 then 4 else typeSize base

def unitAlign (base : CType) : Int :=
  if typeAlignment base < 1 then unitSize base else typeAlignment base

namespace LayoutState

def closeUnit (s : LayoutState) : LayoutState :=
  { s with bfUnitOffset := -1, bfUnitSize := 0, bfBitsUsed := 0 }

def alignTo (s : LayoutState) (align : Int) : LayoutState :=
  { s with
    maxAlign := if align > s.maxAlign then align else s.maxAlign
    currentOffset := alignUp s.currentOffset align }

def push (s : LayoutState) (f : Field) : LayoutState := { s with fields := s.fields ++ [f] }

def openUnit (s : LayoutState) (base : CType) : LayoutState :=
  let s := s.alignTo (unitAlign base)
  { s with
    bfUnitOffset := s.currentOffset
    bfUnitSize := unitSize base
    bfBitsUsed := 0
    currentOffset := wrap32 (s.currentOffset + unitSize base) }

/-- A new unit if the bit-field does not fit. -/
def makeRoom (s : LayoutState) (base : CType) (bitWidth : Int) : LayoutState :=
  if s.bfUnitOffset < 0 ∨ s.bfUnitSize ≠ unitSize base ∨
      wrap32 (s.bfBitsUsed + bitWidth) > wrap32 (unitSize base * 8) then s.openUnit base
  else s

def useBits (s : LayoutState) (bitWidth : Int) : LayoutState :=
  { s with bfBitsUsed := wrap32 (s.bfBitsUsed + bitWidth) }

end LayoutState

def unnamedBitField (base : CType) (bw : Int) (s : LayoutState) : Except String LayoutState :=
  if bw < 0 then .error "error: negative bit-field width\n"
  else
    let bitWidth := wrap32 bw
    if bitWidth = 0 then .ok s.closeUnit
    else .ok ((s.makeRoom base bitWidth).useBits bitWidth)

def namedBitField (decl : MemberDeclaration) (d : ParsedDeclarator) (bw : Int)
    (s : LayoutState) : Except String LayoutState :=
  if bw ≤ 0 then
    .error ("error: named bit-field '" ++ d.name ++ "' must have positive width\n")
  else
    let bitWidth := wrap32 bw
    if bitWidth > wrap32 (unitSize decl.base * 8) then
      .error ("error: bit-field width " ++ toString bitWidth ++ " exceeds storage unit size\n")
    else
      let s := s.makeRoom decl.base bitWidth
      let field : Field := {
        name := d.name
        offset := s.bfUnitOffset
        kind := decl.base.kind
        isConst := decl.isConst
        isVolatile := decl.isVolatile
        isBitfield := true
        bitWidth := bitWidth
        bitOffset := s.bfBitsUsed }
      .ok ((s.push field).useBits bitWidth)

def effectiveBase (decl : MemberDeclaration) (d : ParsedDeclarator) (copy : Nat) : CType :=
  if decl.isConst ∧ d.pointerCount > 0 then decl.base.typeConstCopy copy
  else if decl.isVolatile ∧ d.pointerCount > 0 then decl.base.typeVolatileCopy copy
  else decl.base

/-- The array of unknown length takes no bytes. -/
def flexibleArray (decl : MemberDeclaration) (d : ParsedDeclarator) (elem : CType)
    (s : LayoutState) : Except String LayoutState :=
  if s.fields.isEmpty then
    .error ("error: flexible array member '" ++ d.name ++
      "' may not be the only member of a struct\n")
  else
    -- the alignment is that of the base type, also below pointers
    let falign := typeAlignment decl.base
    let s := s.alignTo (if falign < 1 then 1 else falign)
    let field : Field := {
      name := d.name
      offset := s.currentOffset
      kind := .array
      fullType := some (elem.typeArray 0)
      isConst := decl.isConst
      isVolatile := decl.isVolatile
      isFlexibleArray := true }
    .ok { s.push field with hasFlexibleArray := true }

def keepsFullType : TypeKind → Bool
  | .pointer | .array | .struct | .union => true
  | _ => false

def sizedMember (decl : MemberDeclaration) (d : ParsedDeclarator) (fieldType : CType)
    (s : LayoutState) : Except String LayoutState :=
  if fieldType.kind = .struct ∧ typeSize fieldType = 0 then
    .error ("error: field '" ++ d.name ++ "' has incomplete struct type\n")
  else if fieldType.kind = .union ∧ typeSize fieldType = 0 then
    .error ("error: field '" ++ d.name ++ "' has incomplete union type\n")
  else
    let fsz := if typeSize fieldType < 1 then 1 else typeSize fieldType
    let falign := if typeAlignment fieldType < 1 then 1 else typeAlignment fieldType
    let s := s.alignTo falign
    let plain := d.pointerCount = 0 ∧ ¬ d.isArray
    let field : Field := {
      name := d.name
      offset := s.currentOffset
      kind := fieldType.kind
      fullType := if keepsFullType fieldType.kind then some fieldType else none
      isConst := (decl.isConst ∧ plain) ∨ d.pointerIsConst
      isVolatile := decl.isVolatile ∧ plain }
    .ok { s.push field with currentOffset := wrap32 (s.currentOffset + fsz) }

def regularMember (decl : MemberDeclaration) (d : ParsedDeclarator) (copy : Nat)
    (s : LayoutState) : Except String LayoutState :=
  let s := s.closeUnit
  let fieldType := pointers (effectiveBase decl d copy) d.pointerCount
  if d.isArray then
    if ¬ d.hasSize then flexibleArray decl d fieldType s
    else sizedMember decl d (buildArrayTypeFromDims fieldType d.arrayDims) s
  else sizedMember decl d fieldType s

def declare (decl : MemberDeclaration) (s : LayoutState) :
    MemberDeclarator → Except String LayoutState
  | .unnamed width => unnamedBitField decl.base width s
  | .bitField d width => namedBitField decl d width s
  | .member d copy => regularMember decl d copy s

/-- A struct or union without a declarator is skipped. -/
def declareAll (s : LayoutState) (decl : MemberDeclaration) : Except String LayoutState :=
  if s.hasFlexibleArray then
    .error "error: flexible array member must be the last named member\n"
  else if decl.declarators = [] then
    if decl.base.kind = .struct ∨ decl.base.kind = .union then .ok s
    else .error "error: expected identifier\n"
  else decl.declarators.foldlM (declare decl) s

/-- The type of the struct: `type_struct` and its field table. -/
structure StructType where
  size : Int
  alignment : Int
  fields : List Field
  deriving Repr

def LayoutState.result (s : LayoutState) : StructType :=
  let totalSize := alignUp s.currentOffset s.maxAlign
  { size := if totalSize = 0 then 1 else totalSize
    alignment := s.maxAlign
    fields := s.fields }

def parseStructSpecifier (members : List MemberDeclaration) : Except String StructType := do
  let s ← members.foldlM declareAll {}
  .ok s.result

end ClaudeC99.Struct
