import ClaudeC99.Codegen.Address

/-! Brace initializers of local objects and compound literals. -/

namespace ClaudeC99

open X86

def isInitializerList : Expr → Bool
  | .initializerList _ => true
  | _ => false

def storeValue (offset : Int) (size : Nat) (a : Ann) : List Asm :=
  emitStoreLocal offset size (isLongKind a.resultType)

/-- One element of an array whose slot is already zeroed. -/
def initElement (elemType : CType) (offset : Int) (elem : ExprGen) : Gen Unit := do
  if elemType.kind = .struct ∧ isInitializerList elem.node = true then
    elem.emitLocalStructInit elemType offset
  else if elemType.kind = .array ∧ isInitializerList elem.node = true then
    elem.emitLocalArrayInit elemType offset
  else do
    let a ← elem.codegenExpression
    if typeIsFp elemType.kind then do
      emitAll (emitFpWidenIfNeeded a.resultType elemType.kind)
      emit (storeFp elemType.kind (frame offset))
    else emitAll (storeValue offset elemType.size a)

/-- The element index and the value of one item of an array initializer. -/
def arrayItem (length cur : Nat) (child : ExprGen) : Gen (Nat × ExprGen) :=
  match child.node, child.children with
  | .designatedIndex idx _, value :: _ =>
    if idx ≥ length then throw s!"error: array designator index {idx} out of bounds"
    else pure (idx, value)
  | .designatedMember _ _, _ => throw "error: member designator in array initializer"
  | _, _ => pure (cur, child)

def initArray (elemType : CType) (length : Nat) (tooMany : String) (offset : Int) :
    Nat → List ExprGen → Gen Unit
  | _, [] => pure ()
  | cur, child :: rest => do
    let (idx, value) ← arrayItem length cur child
    errorIf (idx ≥ length) tooMany
    initElement elemType (offset - idx * elemType.size) value
    initArray elemType length tooMany offset (idx + 1) rest

def emitLocalArrayInit (arrType : CType) (offset : Int) (items : List ExprGen) : Gen Unit :=
  match arrType with
  | .array elem length _ =>
    initArray elem length "error: too many initializers in array" offset 0 items
  | _ => throw "segmentation fault: null pointer"

def initFieldBytes (offset : Int) : Nat → List UInt8 → List Asm
  | 0, _ => []
  | _, [] => []
  | n + 1, b :: bs => .storeImm .byte (frame offset) b.toNat :: initFieldBytes (offset - 1) n bs

def plainFieldSize (f : StructField) : Nat := f.fullType.elim (typeKindBytes f.kind) CType.size

def isStringLiteral : Expr → Bool
  | .stringLiteral _ => true
  | _ => false

def initScalarField (f : StructField) (offset : Int) (elem : ExprGen) : Gen Unit := do
  errorIf (isStringLiteral elem.node = true)
    s!"error: incompatible field initializer for field '{f.name}'"
  let a ← elem.codegenExpression
  emitAll (storeValue offset (plainFieldSize f) a)

def initPointerField (f : StructField) (offset : Int) (elem : ExprGen) : Gen Unit := do
  let a ← elem.codegenExpression
  errorIf (a.resultType ≠ .pointer ∧ isNullPointerConstant elem.node = false)
    s!"error: incompatible field initializer for pointer field '{f.name}'"
  emitAll (emitStoreLocal offset (plainFieldSize f) true)

def initField (f : StructField) (offset : Int) (elem : ExprGen) : Gen Unit :=
  match f.kind, f.fullType, elem.node with
  | .struct, some t, .initializerList _ => elem.emitLocalStructInit t offset
  | .array, some t, .stringLiteral bytes => emitAll (initFieldBytes offset t.size bytes)
  | .pointer, _, _ => initPointerField f offset elem
  | _, _, _ => initScalarField f offset elem

def fieldItem (fields : List StructField) (cur : Nat) (child : ExprGen) : Gen (Nat × ExprGen) :=
  match child.node, child.children with
  | .designatedMember name _, value :: _ =>
    match fields.findIdx? (·.name = name) with
    | some i => pure (i, value)
    | none => throw s!"error: struct has no member named '{name}'"
  | .designatedIndex _ _, _ => throw "error: array index designator in struct initializer"
  | _, _ => pure (cur, child)

def initFields (fields : List StructField) (offset : Int) : Nat → List ExprGen → Gen Unit
  | _, [] => pure ()
  | cur, child :: rest => do
    let (idx, value) ← fieldItem fields cur child
    match fields[idx]? with
    | none => throw "error: too many initializers for struct"
    | some f => do
      initField f (offset - f.offset) value
      initFields fields offset (idx + 1) rest

def emitLocalStructInit (st : CType) (offset : Int) (items : List ExprGen) : Gen Unit := do
  let cg ← get
  initFields (cg.fields st) offset 0 items

def initUnionMember (f : StructField) (offset : Int) (elem : ExprGen) : Gen Unit := do
  let a ← elem.codegenExpression
  emitAll (storeValue offset (plainFieldSize f) a)

def initUnionLiteral (st : CType) (offset : Int) (items : List ExprGen) : Gen Unit := do
  let cg ← get
  match items, cg.fields st with
  | [], _ => pure ()
  | _, [] => throw "segmentation fault: null pointer"
  | child :: _, f :: _ =>
    match child.node, child.children with
    | .designatedMember name _, value :: _ =>
      if name = f.name then initUnionMember f offset value
      else throw ("error: union compound literal with non-first member" ++
        " designator not yet supported")
    | .designatedIndex _ _, _ => throw "error: array index designator in union initializer"
    | _, _ => initUnionMember f offset child

def initRecordLiteral (declType : TypeKind) (st : CType) (slot : Nat) (list : ExprGen) :
    Gen Unit :=
  if declType = .union then initUnionLiteral st slot list.children
  else list.emitLocalStructInit st slot

def genRecordLiteral (declType : TypeKind) (st : CType) (slot : Nat) (list : ExprGen) :
    Gen Ann := do
  emitAll (zeroBytes slot st.size)
  initRecordLiteral declType st slot list
  emit (.lea .rax (frame slot))
  pure (.pointerTo st)

def genArrayLiteral (arrType : CType) (slot : Nat) (list : ExprGen) : Gen Ann :=
  match arrType with
  | .array elem length _ => do
    emitAll (zeroBytes slot arrType.size)
    initArray elem length "error: too many initializers in compound literal" slot 0 list.children
    emit (.lea .rax (frame slot))
    pure (.pointerTo elem)
  | _ => throw "segmentation fault: null pointer"

def genScalarLiteral (declType : TypeKind) (fullType : Option CType) (slot : Nat)
    (init : ExprGen) : Gen Ann := do
  let _ ← init.codegenExpression
  emitAll (emitStoreLocal slot (typeKindBytes declType) (typeKindBytes declType = 8))
  pure ⟨declType, fullType, fullType.elim false fun t => !t.isSigned⟩

def genCompoundLiteral (declType : TypeKind) (fullType : Option CType) (slot : Nat)
    (init : ExprGen) : Gen Ann := do
  errorIf (slot = 0) "error: compound literals at file scope are not yet supported"
  if isStructOrUnionKind declType then do
    let st ← nonNull fullType
    genRecordLiteral declType st slot init
  else if declType = .array then do
    let arrType ← nonNull fullType
    genArrayLiteral arrType slot init
  else genScalarLiteral declType fullType slot init

end ClaudeC99
