import Mathlib.Data.Nat.Basic

/-! Types, struct fields and their layout data as the parser hands them to code generation. -/

namespace ClaudeC99

inductive TypeKind
  | void | bool | char | short | int | long | longLong | unsignedLongLong
  | float | double | pointer | array | function | struct | union
  deriving DecidableEq, Repr

/-- The layout of a completed struct or union. Alignments come from members, so from scalars. -/
structure RecordLayout where
  size : Nat
  alignment : Nat
  alignment_mem : alignment ∈ [1, 2, 4, 8]
  deriving Repr

/-- The field table of a struct or union is found by its `tag`, so a struct may point to itself.
Struct types are compared as objects: a qualified copy differs from the node it was copied from,
which has `copy = 0`. An incomplete struct has no layout. -/
inductive CType
  | scalar (kind : TypeKind) (isSigned isConst : Bool)
  | pointer (base : CType) (isConst : Bool)
  | array (base : CType) (length : Nat) (isConst : Bool)
  | function (returnType : CType) (params : List CType)
  | record (isUnion : Bool) (tag copy : Nat) (layout : Option RecordLayout) (isConst : Bool)
  deriving Repr

structure StructField where
  name : String
  offset : Nat
  kind : TypeKind
  fullType : Option CType
  isConst : Bool
  isBitfield : Bool
  bitWidth : Nat
  bitOffset : Nat
  deriving Repr

namespace CType

def kind : CType → TypeKind
  | scalar k _ _ => k
  | pointer _ _ => .pointer
  | array _ _ _ => .array
  | function _ _ => .function
  | record isUnion _ _ _ _ => if isUnion then .union else .struct

def isConst : CType → Bool
  | scalar _ _ c | pointer _ c | array _ _ c | record _ _ _ _ c => c
  | function _ _ => false

def isSigned : CType → Bool
  | scalar _ s _ => s
  | _ => false

def base : CType → Option CType
  | pointer b _ => some b
  | array b _ _ => some b
  | function r _ => some r
  | _ => none

def length : CType → Nat
  | array _ n _ => n
  | _ => 0

end CType

def TypeKind.size : TypeKind → Nat
  | .bool | .char => 1
  | .short => 2
  | .int | .float => 4
  | .long | .longLong | .unsignedLongLong | .double | .pointer => 8
  | .void | .array | .function | .struct | .union => 0

namespace CType

def size : CType → Nat
  | scalar k _ _ => k.size
  | pointer _ _ => 8
  | array b n _ => b.size * n
  | function _ _ => 0
  | record _ _ _ layout _ => layout.elim 0 RecordLayout.size

def alignment : CType → Nat
  | scalar k _ _ => k.size
  | pointer _ _ => 8
  | array b _ _ => b.alignment
  | function _ _ => 0
  | record _ _ _ layout _ => layout.elim 0 RecordLayout.alignment

def typeVoid : CType := scalar .void false false
def typeBool : CType := scalar .bool false false
def typeChar : CType := scalar .char true false
def typeShort : CType := scalar .short true false
def typeInt : CType := scalar .int true false
def typeLong : CType := scalar .long true false
def typeLongLong : CType := scalar .longLong true false
def typeUnsignedChar : CType := scalar .char false false
def typeUnsignedShort : CType := scalar .short false false
def typeUnsignedInt : CType := scalar .int false false
def typeUnsignedLong : CType := scalar .long false false
def typeUnsignedLongLong : CType := scalar .unsignedLongLong false false
def typeFloat : CType := scalar .float false false
def typeDouble : CType := scalar .double false false
def typePointer (base : CType) : CType := pointer base false
def typeArray (element : CType) (length : Nat) : CType := array element length false

/-- A qualified copy is a new object, which `copy` tells from the other struct types. -/
def typeConstCopy (copy : Nat) : CType → CType
  | scalar k s _ => scalar k s true
  | pointer b _ => pointer b true
  | array b n _ => array b n true
  | function r ps => function r ps
  | record u t _ layout _ => record u t copy layout true

def typeVolatileCopy (copy : Nat) : CType → CType
  | record u t _ layout c => record u t copy layout c
  | t => t

end CType

def TypeKind.name : TypeKind → String
  | .void => "void"
  | .bool => "_Bool"
  | .char => "char"
  | .short => "short"
  | .int => "int"
  | .long => "long"
  | .longLong => "long long"
  | .unsignedLongLong => "unsigned long long"
  | .float => "float"
  | .double => "double"
  | .pointer => "pointer"
  | .array => "array"
  | .function => "function"
  | .struct => "struct"
  | .union => "union"

def TypeKind.isInteger : TypeKind → Bool
  | .bool | .char | .short | .int | .long | .longLong | .unsignedLongLong => true
  | _ => false

def TypeKind.isFloating : TypeKind → Bool
  | .float | .double => true
  | _ => false

def TypeKind.isAggregate : TypeKind → Bool
  | .struct | .union => true
  | _ => false

end ClaudeC99
