import ClaudeC99.Codegen.Init
import ClaudeC99.HostLong
import ClaudeC99.Lib.Tables

/-! File-scope objects: the table that declarations are registered in, and the data section. -/

namespace ClaudeC99

open Tables (updateFirst)

/-- A row of the global table, with what only registration and data emission read. -/
structure GlobalEntry extends GlobalVar where
  isInitialized : Bool
  initValue : Int
  isLabelInit : Bool
  initLabel : Option String
  initNode : Option Expr
  isExtern : Bool
  isStaticLinkage : Bool

/-- A file-scope declaration of an object. -/
structure GlobalDecl extends DeclInfo where
  init : Option Expr

/-- The part of the generator that is in use before the first function; `output` has one text for
each line. -/
structure DataGen where
  globals : List GlobalEntry
  stringPool : List (List UInt8)
  compoundLiteralCount : Nat
  structFields : Nat → List StructField
  output : List String

def DataGen.findGlobal (cg : DataGen) (name : String) : Option GlobalEntry :=
  cg.globals.find? (·.name = name)

def DataGen.fields (cg : DataGen) : CType → List StructField
  | .record _ tag _ _ _ => cg.structFields tag
  | _ => []

def DeclInfo.globalSize (decl : DeclInfo) : Nat :=
  match decl.declType, decl.fullType with
  | .array, some t => t.base.elim 4 fun base => typeKindBytes base.kind
  | kind, _ => typeKindBytes kind

section Registration

-- the text that `snprintf` gives for the number as a `float` (`%.9g`) or a `double` (`%.17g`)
variable (printed : TypeKind → Int → String)

def fpInitText (kind : TypeKind) (v : Int) : String :=
  let text := printed kind v
  if text.toList.any (· ∈ ['.', 'e', 'E']) then text else text ++ ".0"

namespace GlobalEntry

def initFloat (gv : GlobalEntry) (text : String) : GlobalEntry :=
  { gv with initLabel := some text, isLabelInit := false, isInitialized := true }

def truncateBool (gv : GlobalEntry) (v : Int) : Int :=
  if gv.kind = .bool then (if v ≠ 0 then 1 else 0) else v

def initInteger (gv : GlobalEntry) (v : Int) : GlobalEntry :=
  if gv.kind = .float ∨ gv.kind = .double then gv.initFloat (fpInitText printed gv.kind v)
  else { gv with initValue := gv.truncateBool v, isInitialized := true }

def initLabelled (gv : GlobalEntry) (label : String) : GlobalEntry :=
  { gv with initLabel := some label, isLabelInit := true, isInitialized := true }

def initFromNode (gv : GlobalEntry) (init : Expr) : GlobalEntry :=
  { gv with initNode := some init, isInitialized := true }

/-- The initializer of an object that is declared already. -/
def promote (gv : GlobalEntry) : Expr → GlobalEntry
  | .floatLiteral text _ => gv.initFloat text
  | .intLiteral value _ _ => gv.initInteger printed (strtol value)
  | .charLiteral byte => { gv with initValue := byte.toNat, isInitialized := true }
  | init => { gv with initValue := 0, initNode := some init, isInitialized := true }

/-- `init->children[0]->value` is the text "0". -/
def isZeroLiteral : Expr → Bool
  | .intLiteral (.dec 0) _ _ => true
  | _ => false

/-- The initializer of an object that is new in the table, and the string pool after it. -/
def initNew (gv : GlobalEntry) (pool : List (List UInt8)) :
    Expr → GlobalEntry × List (List UInt8)
  | .floatLiteral text _ => (gv.initFloat text, pool)
  | .intLiteral value _ _ => (gv.initInteger printed (strtol value), pool)
  | .charLiteral byte =>
    ({ gv with initValue := gv.truncateBool byte.toNat, isInitialized := true }, pool)
  | .varRef name => (gv.initLabelled name, pool)
  | .stringLiteral bytes =>
    if gv.kind = .array then (gv.initFromNode (.stringLiteral bytes), pool)
    else if gv.kind = .pointer then (gv.initLabelled s!"Lstr{pool.length}", pool ++ [bytes])
    else (gv, pool)
  | .initializerList es =>
    if gv.kind = .array ∨ gv.kind = .struct ∨ gv.kind = .union then
      (gv.initFromNode (.initializerList es), pool)
    else (gv, pool)
  | .addrOf operand =>
    if gv.kind = .pointer then (gv.initFromNode (.addrOf operand), pool) else (gv, pool)
  | .compoundLiteral k t u slot init =>
    if gv.kind = .pointer then (gv.initFromNode (.compoundLiteral k t u slot init), pool)
    else (gv, pool)
  | .cast _ _ _ operand =>
    if gv.kind = .pointer ∧ isZeroLiteral operand = true then
      ({ gv with initValue := 0, isInitialized := true }, pool)
    else (gv, pool)
  | _ => (gv, pool)

/-- What a declaration with an initializer changes before the initializer is looked at. -/
def redeclare (gv : GlobalEntry) (decl : DeclInfo) : GlobalEntry :=
  { gv with
    isInitialized := false
    initValue := 0
    isLabelInit := false
    initLabel := none
    initNode := none
    isExtern := decl.storage = .external
    isStaticLinkage := decl.storage = .static
    fullType := decl.fullType
    size := decl.globalSize }

end GlobalEntry

def DeclInfo.newEntry (decl : DeclInfo) : GlobalEntry where
  name := decl.name
  size := decl.globalSize
  kind := decl.declType
  fullType := decl.fullType
  isConst := decl.isConst
  isUnsigned := decl.isUnsigned
  isInitialized := false
  initValue := 0
  isLabelInit := false
  initLabel := none
  initNode := none
  isExtern := decl.storage = .external
  isStaticLinkage := decl.storage = .static

def updateGlobal (cg : DataGen) (name : String) (f : GlobalEntry → GlobalEntry) : DataGen :=
  { cg with globals := updateFirst (·.name = name) f cg.globals }

def codegenAddGlobal (cg : DataGen) (decl : GlobalDecl) : DataGen :=
  match cg.findGlobal decl.name, decl.init with
  | some _, none =>
    if decl.storage = .none then updateGlobal cg decl.name ({ · with isExtern := false }) else cg
  | some _, some init =>
    updateGlobal cg decl.name fun gv => (gv.redeclare decl.toDeclInfo).promote printed init
  | none, none => { cg with globals := cg.globals ++ [decl.newEntry] }
  | none, some init =>
    let (gv, pool) := decl.newEntry.initNew printed cg.stringPool init
    { cg with globals := cg.globals ++ [gv], stringPool := pool }

def addGlobals (cg : DataGen) (decls : List GlobalDecl) : DataGen :=
  decls.foldl (codegenAddGlobal printed) cg

end Registration

abbrev DataEmit := StateT DataGen (Except String)

def emitText (line : String) : DataEmit Unit :=
  modify fun cg => { cg with output := cg.output ++ [line] }

def emitDatum (directive : String) (value : Int) : DataEmit Unit :=
  emitText s!"    {directive} {value}"

def emitZeros (directive : String) : Nat → DataEmit Unit
  | 0 => pure ()
  | n + 1 => do
    emitDatum directive 0
    emitZeros directive n

def dataInitDirective : TypeKind → String
  | .bool | .char => "db"
  | .short => "dw"
  | .longLong | .unsignedLongLong | .long | .double | .pointer => "dq"
  | _ => "dd"

/-- `strtol` with base 10, which stops at the `x` of a hexadecimal literal. -/
def strtolDecimal : NumText → Int
  | .dec n => strtol (.dec n)
  | .hex _ => 0

def emitBytes : List UInt8 → DataEmit Unit
  | [] => pure ()
  | b :: bs => do
    emitDatum "db" b.toNat
    emitBytes bs

def emitStringAsBytes (bytes : List UInt8) (fieldLen : Nat) : DataEmit Unit := do
  emitBytes (bytes.take fieldLen)
  emitZeros "db" (fieldLen - bytes.length)

def emitPooledString (bytes : List UInt8) : DataEmit Unit := do
  let cg ← get
  set { cg with stringPool := cg.stringPool ++ [bytes] }
  emitText s!"    dq Lstr{cg.stringPool.length}"

/-- An initializer with the directives it gives as a brace list for a struct or an array. -/
structure DataInit where
  node : Expr
  children : List DataInit
  emitGlobalStruct : CType → DataEmit Unit
  emitGlobalArrayElements : CType → DataEmit Unit

def isCharArray : CType → Bool
  | .array base _ _ => base.kind = .char
  | _ => false

def emitField (f : StructField) (elem : DataInit) : DataEmit Unit :=
  match f.kind, f.fullType, elem.node with
  | .struct, some t, .initializerList _ => elem.emitGlobalStruct t
  | .pointer, _, .stringLiteral bytes => emitPooledString bytes
  | .array, some t, .stringLiteral bytes =>
    if isCharArray t = true then emitStringAsBytes bytes t.length
    else throw s!"error: unsupported initializer for struct field '{f.name}'"
  | kind, _, .intLiteral value _ _ => emitDatum (dataInitDirective kind) (strtolDecimal value)
  | kind, _, .charLiteral byte => emitDatum (dataInitDirective kind) byte.toNat
  | _, _, _ => throw s!"error: unsupported initializer for struct field '{f.name}'"

/-- The initializer of each field; only member designators are looked at. -/
def structSlots (fields : List StructField) :
    Nat → List DataInit → List (Option DataInit) → DataEmit (List (Option DataInit))
  | _, [], slots => pure slots
  | cur, child :: rest, slots =>
    match child.node, child.children with
    | .designatedMember name _, value :: _ =>
      match fields.findIdx? (·.name = name) with
      | some i => structSlots fields (i + 1) rest (slots.set i (some value))
      | none => throw s!"error: struct has no member named '{name}'"
    | _, _ =>
      if cur ≥ fields.length then throw "error: too many initializers for struct"
      else structSlots fields (cur + 1) rest (slots.set cur (some child))

/-- The fields in declared order, with the bytes before each; the result is where they end. -/
def emitStructFields : Nat → List (StructField × Option DataInit) → DataEmit Nat
  | curOff, [] => pure curOff
  | curOff, (f, elem) :: rest => do
    emitZeros "db" (f.offset - curOff)
    match elem with
    | some e => emitField f e
    | none => emitZeros "db" (plainFieldSize f)
    emitStructFields (f.offset + plainFieldSize f) rest

def maxStructFieldsDesignated : Nat := 64

def emitGlobalStruct (st : CType) (items : List DataInit) : DataEmit Unit := do
  let cg ← get
  let fields := cg.fields st
  if fields.length > maxStructFieldsDesignated then
    throw "error: struct has too many fields for designated init (max 64)"
  let slots ← structSlots fields 0 items (List.replicate fields.length none)
  let curOff ← emitStructFields 0 (fields.zip slots)
  emitZeros "db" (st.size - curOff)

def emitArrayElement (elemType : CType) (elem : DataInit) : DataEmit Unit :=
  match elemType.kind, elem.node with
  | .array, .initializerList _ => elem.emitGlobalArrayElements elemType
  | .struct, .initializerList _ => elem.emitGlobalStruct elemType
  | kind, .intLiteral value _ _ => emitDatum (dataInitDirective kind) (strtolDecimal value)
  | kind, .charLiteral byte => emitDatum (dataInitDirective kind) byte.toNat
  | _, .stringLiteral bytes =>
    if isCharArray elemType = true then emitStringAsBytes bytes elemType.length
    else throw "error: unsupported initializer element in global array"
  | _, _ => throw "error: unsupported initializer element in global array"

def emitArrayItems (elemType : CType) (length : Nat) : Nat → List DataInit → DataEmit Nat
  | cur, [] => pure cur
  | cur, child :: rest => do
    let (idx, elem) ←
      match child.node, child.children with
      | .designatedIndex idx _, value :: _ => pure (idx, value)
      | .designatedMember _ _, _ => throw "error: member designator in array initializer"
      | _, _ => pure (cur, child)
    if idx ≥ length then throw "error: too many initializers in global array"
    emitArrayElement elemType elem
    emitArrayItems elemType length (idx + 1) rest

def emitZeroElement : CType → DataEmit Unit
  | .array base length c =>
    if base.size = 0 then throw "floating point exception: division by zero"
    else emitZeros (dataInitDirective base.kind) ((CType.array base length c).size / base.size)
  | elemType => emitDatum (dataInitDirective elemType.kind) 0

def emitZeroElements (elemType : CType) : Nat → DataEmit Unit
  | 0 => pure ()
  | n + 1 => do
    emitZeroElement elemType
    emitZeroElements elemType n

def emitGlobalArrayElements (arrType : CType) (items : List DataInit) : DataEmit Unit :=
  match arrType with
  | .array elemType length _ => do
    let cur ← emitArrayItems elemType length 0 items
    emitZeroElements elemType (length - cur)
  | _ => throw "segmentation fault: null pointer"

def DataInit.ofLeaf (node : Expr) (children : List DataInit) : DataInit where
  node
  children
  emitGlobalStruct := fun _ => throw "segmentation fault: not a brace list"
  emitGlobalArrayElements := fun _ => throw "segmentation fault: not a brace list"

mutual

def dataInit : Expr → DataInit
  | .initializerList es =>
    let items := dataInits es
    { node := .initializerList es
      children := items
      emitGlobalStruct := fun t => emitGlobalStruct t items
      emitGlobalArrayElements := fun t => emitGlobalArrayElements t items }
  | .designatedMember field value => .ofLeaf (.designatedMember field value) [dataInit value]
  | .designatedIndex idx value => .ofLeaf (.designatedIndex idx value) [dataInit value]
  | node => .ofLeaf node []

def dataInits : List Expr → List DataInit
  | [] => []
  | e :: es => dataInit e :: dataInits es

end

/-- The label on one line with its first value. -/
def emitLabelled (name directive value : String) : DataEmit Unit :=
  emitText s!"{name}: {directive} {value}"

/-- `char s[] = "abc"`: all bytes on the label's line. -/
def emitStringArray (name : String) (length : Nat) (bytes : List UInt8) : DataEmit Unit :=
  emitLabelled name "db" (", ".intercalate
    ((List.range length).map fun j => toString (bytes.getD j 0).toNat))

def emitUnionMember (name : String) (f : StructField) : Expr → DataEmit Unit
  | .intLiteral value _ _ => emitDatum (dataInitDirective f.kind) (strtolDecimal value)
  | .charLiteral byte => emitDatum (dataInitDirective f.kind) byte.toNat
  | _ => throw s!"error: unsupported initializer for union '{name}'"

/-- The first member, and zeros up to the union's size. -/
def emitUnion (name : String) (fullType : Option CType) (elements : List Expr) :
    DataEmit Unit := do
  let cg ← get
  if elements.length > 1 then throw s!"error: too many initializers for union '{name}'"
  match fullType with
  | none => throw "segmentation fault: null pointer"
  | some t =>
    match elements, cg.fields t with
    | [elem], f :: _ => do
      emitUnionMember name f elem
      emitZeros "db" (t.size - plainFieldSize f)
    | _, _ => emitZeros "db" t.size

def arraySlots (name : String) (length : Nat) :
    Nat → List DataInit → List (Option DataInit) → DataEmit (List (Option DataInit))
  | _, [], slots => pure slots
  | cur, child :: rest, slots =>
    match child.node, child.children with
    | .designatedIndex idx _, value :: _ =>
      if idx ≥ length then throw s!"error: array designator index {idx} out of bounds"
      else arraySlots name length (idx + 1) rest (slots.set idx (some value))
    | .designatedMember _ _, _ => throw "error: member designator in array initializer"
    | _, _ =>
      if cur ≥ length then throw s!"error: too many initializers for array '{name}'"
      else arraySlots name length (cur + 1) rest (slots.set cur (some child))

/-- One slot of an array; the element type is missing only when the array's type is. -/
def emitSlot (name : String) (elemType : Option CType) : Option DataInit → DataEmit Unit
  | some elem =>
    let kind := elemType.elim .int CType.kind
    match elemType, kind, elem.node with
    | some t, .struct, .initializerList _ => elem.emitGlobalStruct t
    | some t, .array, .initializerList _ => elem.emitGlobalArrayElements t
    | t, _, .stringLiteral bytes =>
      if t.any isCharArray = true then emitStringAsBytes bytes (t.elim 0 CType.length)
      else emitPooledString bytes
    | _, _, .intLiteral value _ _ => emitDatum (dataInitDirective kind) (strtolDecimal value)
    | _, _, .charLiteral byte => emitDatum (dataInitDirective kind) byte.toNat
    | _, _, _ => throw s!"error: unsupported initializer element type in '{name}'"
  | none =>
    match elemType with
    | some t =>
      if t.kind = .struct ∨ t.kind = .array then emitZeros "db" t.size
      else emitDatum (dataInitDirective t.kind) 0
    | none => emitDatum (dataInitDirective .int) 0

def emitSlots (name : String) (elemType : Option CType) : List (Option DataInit) → DataEmit Unit
  | [] => pure ()
  | slot :: slots => do
    emitSlot name elemType slot
    emitSlots name elemType slots

def maxArrayElemsDesignated : Nat := 1024

/-- The label is printed with the first element, so an empty array has none. -/
def emitArrayList (name : String) (fullType : Option CType) (elements : List Expr) :
    DataEmit Unit := do
  let length := fullType.elim elements.length CType.length
  if length > maxArrayElemsDesignated then
    throw "error: array too large for designated initializer emission"
  let slots ← arraySlots name length 0 (dataInits elements) (List.replicate length none)
  if length ≠ 0 then emitText s!"{name}:"
  emitSlots name (fullType.bind CType.base) slots

def compoundItems : Expr → List Expr
  | .initializerList es => es
  | _ => []

/-- `Lcompound_<n>` -/
def anonymousLabel : DataEmit String := do
  let cg ← get
  set { cg with compoundLiteralCount := cg.compoundLiteralCount + 1 }
  pure s!"Lcompound_{cg.compoundLiteralCount}"

def emitCompoundElements (directive : String) : Nat → List Expr → DataEmit Unit
  | 0, _ => pure ()
  | n + 1, [] => emitZeros directive (n + 1)
  | n + 1, e :: es => do
    match e with
    | .intLiteral value _ _ => emitDatum directive (strtol value)
    | .charLiteral byte => emitDatum directive byte.toNat
    | _ => throw "error: unsupported element in file-scope compound literal"
    emitCompoundElements directive n es

/-- An array compound literal that decays to the pointer's value. -/
def emitCompoundArray (name : String) (elemType : CType) (length : Nat) (init : Expr) :
    DataEmit Unit := do
  let anon ← anonymousLabel
  emitText s!"{anon}:"
  emitCompoundElements (dataInitDirective elemType.kind) length (compoundItems init)
  emitLabelled name "dq" anon

def compoundValue : Expr → Int
  | .intLiteral value _ _ => strtol value
  | _ => 0

/-- `&(type){...}` -/
def emitCompoundObject (name : String) (declType : TypeKind) (fullType : Option CType)
    (init : Expr) : DataEmit Unit := do
  let anon ← anonymousLabel
  match fullType with
  | some t =>
    if t.kind = .struct then do
      emitText s!"{anon}:"
      emitGlobalStruct t (dataInits (compoundItems init))
    else emitLabelled anon (dataInitDirective declType) (toString (compoundValue init))
  | none => emitLabelled anon (dataInitDirective declType) (toString (compoundValue init))
  emitLabelled name "dq" anon

/-- The size that an index into `&array[N]` is scaled by. -/
def pointeeSize (fullType : Option CType) : Nat :=
  match fullType.bind CType.base with
  | some base => if base.size > 0 then base.size else typeKindBytes base.kind
  | none => 4

def emitAddress (gv : GlobalEntry) : Expr → DataEmit Unit
  | .varRef target => emitLabelled gv.name "dq" target
  | .arrayIndex (.varRef array) (.intLiteral value _ _) =>
    let idx := strtol value
    if idx = 0 then emitLabelled gv.name "dq" array
    else emitLabelled gv.name "dq" s!"{array} + {wrap64 (idx * pointeeSize gv.fullType)}"
  | .compoundLiteral declType fullType _ _ init =>
    emitCompoundObject gv.name declType fullType init
  | _ => throw s!"error: unsupported address-constant initializer for '{gv.name}'"

def stripFloatSuffix (text : String) : String :=
  if text.toList.getLast? ∈ [some 'f', some 'F'] then String.ofList text.toList.dropLast else text

/-- An initializer that the entry has as a number or a label. -/
def emitPlain (gv : GlobalEntry) : DataEmit Unit :=
  let directive := dataInitDirective gv.kind
  if typeIsFp gv.kind = true ∧ gv.initLabel.isSome ∧ gv.isLabelInit = false then
    emitLabelled gv.name directive (stripFloatSuffix (gv.initLabel.getD ""))
  else if gv.isLabelInit = true then emitLabelled gv.name directive (gv.initLabel.getD "(null)")
  else emitLabelled gv.name directive (toString gv.initValue)

def emitInitialized (gv : GlobalEntry) : DataEmit Unit :=
  match gv.initNode, gv.kind with
  | some (.stringLiteral bytes), .array =>
    emitStringArray gv.name (gv.fullType.elim (bytes.length + 1) CType.length) bytes
  | some (.initializerList es), .union => do
    emitText s!"{gv.name}:"
    emitUnion gv.name gv.fullType es
  | some (.initializerList es), .struct => do
    emitText s!"{gv.name}:"
    match gv.fullType with
    | some t => emitGlobalStruct t (dataInits es)
    | none => throw "segmentation fault: null pointer"
  | some (.initializerList es), .array => emitArrayList gv.name gv.fullType es
  | some (.compoundLiteral _ (some (.array elem length _)) _ _ init), .pointer =>
    emitCompoundArray gv.name elem length init
  | some (.addrOf operand), .pointer => emitAddress gv operand
  | _, _ => emitPlain gv

def emitGlobals : List GlobalEntry → DataEmit Unit
  | [] => pure ()
  | gv :: rest => do
    if gv.isInitialized ∧ ¬gv.isExtern then do
      if ¬gv.isStaticLinkage then emitText s!"global {gv.name}"
      emitInitialized gv
    emitGlobals rest

def codegenEmitData : DataEmit Unit := do
  let cg ← get
  if cg.globals.any (fun gv => gv.isInitialized && !gv.isExtern) then do
    emitText "section .data"
    emitGlobals cg.globals

end ClaudeC99
