import ClaudeC99.CType
import ClaudeC99.Lib.Tables

/-! The `Type` objects that the parser shares, and the tags that find a struct or union among them.
A definition completes the tag's object in place, but not the qualified copies made of it. -/

namespace ClaudeC99.Struct

open Tables (updateFirst)

/-- A `Type *`. -/
abbrev TypeId := Nat

structure TagKey where
  isUnion : Bool
  tag : String
  deriving DecidableEq

structure NodeField where
  name : String
  offset : Int
  kind : TypeKind
  fullType : Option TypeId
  isConst : Bool
  isVolatile : Bool
  isBitfield : Bool
  bitWidth : Nat
  bitOffset : Nat
  isFlexibleArray : Bool
  deriving DecidableEq

/-- A `Type` object. `key` is not in the source: it is the tag that the object was made for, and a
copy has the key of its original. -/
structure TypeNode where
  kind : TypeKind
  size : Nat
  alignment : Nat
  isSigned : Bool
  base : Option TypeId
  length : Nat
  params : List TypeId
  fields : List NodeField
  isConst : Bool
  isVolatile : Bool
  key : Option TagKey
  deriving DecidableEq

/-- `types` grows only; `tags` holds the struct tags and the union tags with their objects. -/
structure TypeTables where
  types : List TypeNode
  tags : List (TagKey × Option TypeId)

def plainNode (kind : TypeKind) (size alignment : Nat) : TypeNode :=
  ⟨kind, size, alignment, false, none, 0, [], [], false, false, none⟩

def typePointer (base : TypeId) : TypeNode :=
  { plainNode .pointer 8 8 with base := some base }

def typeArray (element : TypeNode) (id : TypeId) (length : Nat) : TypeNode :=
  { plainNode .array (element.size * length) element.alignment with base := some id, length }

def typeFunction (returnType : TypeId) (params : List TypeId) : TypeNode :=
  { plainNode .function 0 0 with base := some returnType, params }

def typeConstCopy (t : TypeNode) : TypeNode := { t with isConst := true }

def typeVolatileCopy (t : TypeNode) : TypeNode := { t with isVolatile := true }

/-- `type_struct(size, alignment)` or `type_union(size, alignment)` -/
def typeRecord (isUnion : Bool) (size alignment : Nat) : TypeNode :=
  plainNode (if isUnion then .union else .struct) size alignment

namespace TypeTables

def alloc (s : TypeTables) (node : TypeNode) : TypeTables :=
  { s with types := s.types ++ [node] }

def entry (s : TypeTables) (key : TagKey) : Option TypeId :=
  ((s.tags.find? (·.1 = key)).map Prod.snd).join

def isRegistered (s : TypeTables) (key : TagKey) : Bool := s.tags.any (·.1 = key)

def register (s : TypeTables) (key : TagKey) : TypeTables :=
  if s.isRegistered key = true then s else { s with tags := s.tags ++ [(key, none)] }

def setEntry (s : TypeTables) (key : TagKey) (t : TypeId) : TypeTables :=
  { s with tags := updateFirst (·.1 = key) (fun _ => (key, some t)) s.tags }

/-- The object of a tag without a definition. -/
def incomplete (key : TagKey) : TypeNode := { typeRecord key.isUnion 0 0 with key := some key }

/-- `struct Tag` without a body. -/
def refer (s : TypeTables) (key : TagKey) : TypeTables :=
  let s := s.register key
  match s.entry key with
  | some _ => s
  | none => (s.alloc (incomplete key)).setEntry key s.types.length

/-- The object that the definition of the tag completes in place. -/
def placeholder (s : TypeTables) (key : TagKey) : Option TypeId :=
  (s.entry key).filter fun t => (s.types[t]?).any (·.size = 0)

def complete (node : TypeNode) (size alignment : Nat) (fields : List NodeField) : TypeNode :=
  { node with
    size
    alignment
    fields := if fields.isEmpty then node.fields else fields }

/-- The end of the tag's body, with the layout that its members gave. -/
def define (s : TypeTables) (key : TagKey) (size alignment : Nat) (fields : List NodeField) :
    TypeTables :=
  let size := if size = 0 then 1 else size
  match s.placeholder key with
  | some t => { s with types := s.types.modify t fun node => complete node size alignment fields }
  | none =>
    (s.alloc (complete (incomplete key) size alignment fields)).setEntry key s.types.length

end TypeTables

/-- What the parser's functions do to the tables. -/
inductive TypeOp
  | refer (key : TagKey)
  | openBody (key : TagKey)
  | define (key : TagKey) (size alignment : Nat) (fields : List NodeField)
  | anonymous (isUnion : Bool) (size alignment : Nat) (fields : List NodeField)
  | pointer (base : TypeId)
  | array (element : TypeId) (length : Nat)
  | function (returnType : TypeId) (params : List TypeId)
  | constCopy (t : TypeId)
  | volatileCopy (t : TypeId)

open TypeTables in
def step (s : TypeTables) : TypeOp → Option TypeTables
  | .refer key => some (s.refer key)
  | .openBody key => some (s.register key)
  | .define key size alignment fields =>
    if s.isRegistered key = true then some (s.define key size alignment fields) else none
  | .anonymous isUnion size alignment fields =>
    let size := if size = 0 then 1 else size
    some (s.alloc (complete (typeRecord isUnion size alignment) size alignment fields))
  | .pointer base => (s.types[base]?).map fun _ => s.alloc (typePointer base)
  | .array element length => (s.types[element]?).map fun node =>
    s.alloc (typeArray node element length)
  | .function returnType params => (s.types[returnType]?).map fun _ =>
    s.alloc (typeFunction returnType params)
  | .constCopy t => (s.types[t]?).map fun node => s.alloc (typeConstCopy node)
  | .volatileCopy t => (s.types[t]?).map fun node => s.alloc (typeVolatileCopy node)

def runOps (s : TypeTables) (ops : List TypeOp) : Option TypeTables := ops.foldlM step s

/-- The tables that parsing starts with: the objects of the basic types. -/
def parserTables : TypeTables where
  types :=
    [plainNode .void 0 0, plainNode .bool 1 1, { plainNode .char 1 1 with isSigned := true },
      { plainNode .short 2 2 with isSigned := true }, { plainNode .int 4 4 with isSigned := true },
      { plainNode .long 8 8 with isSigned := true },
      { plainNode .longLong 8 8 with isSigned := true }, plainNode .char 1 1, plainNode .short 2 2,
      plainNode .int 4 4, plainNode .long 8 8, plainNode .unsignedLongLong 8 8,
      plainNode .float 4 4, plainNode .double 8 8]
  tags := []

end ClaudeC99.Struct
