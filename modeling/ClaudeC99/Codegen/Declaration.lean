import ClaudeC99.Codegen.Expression
import ClaudeC99.HostLong

/-! Block-scope declarations: statics, structs, arrays, floating and scalar objects. -/

namespace ClaudeC99

open X86

def evalConstBinary (varname : String) (op : BinaryOp) (lhs rhs : Int) : Except String Int :=
  let l := BitVec.ofInt 64 lhs
  let r := BitVec.ofInt 64 rhs
  let truth (b : Bool) : Int := if b then 1 else 0
  match op with
  | .add => pure (wrap64 (lhs + rhs))
  | .sub => pure (wrap64 (lhs - rhs))
  | .mul => pure (wrap64 (lhs * rhs))
  | .div =>
    if rhs = 0 then throw s!"error: division by zero in initializer for static '{varname}'"
    else pure (wrap64 (lhs.tdiv rhs))
  | .mod =>
    if rhs = 0 then throw s!"error: division by zero in initializer for static '{varname}'"
    else pure (wrap64 (lhs.tmod rhs))
  | .shiftLeft => pure (l <<< (rhs.toNat % 64)).toInt
  | .shiftRight => pure (l.sshiftRight (rhs.toNat % 64)).toInt
  | .bitAnd => pure (l &&& r).toInt
  | .bitXor => pure (l ^^^ r).toInt
  | .bitOr => pure (l ||| r).toInt
  | .lt => pure (truth (lhs < rhs))
  | .le => pure (truth (lhs ≤ rhs))
  | .gt => pure (truth (lhs > rhs))
  | .ge => pure (truth (lhs ≥ rhs))
  | .eq => pure (truth (lhs = rhs))
  | .ne => pure (truth (lhs ≠ rhs))
  | .logicalAnd => pure (truth (lhs ≠ 0 ∧ rhs ≠ 0))
  | .logicalOr => pure (truth (lhs ≠ 0 ∨ rhs ≠ 0))

def evalConstInit (varname : String) : Expr → Except String Int
  | .intLiteral value _ _ => pure (strtol value)
  | .charLiteral byte => pure byte.toNat
  | .sizeofType declType fullType =>
    pure (fullType.elim (typeKindBytes declType) CType.size : Nat)
  | .unaryOp op e => do
    let v ← evalConstInit varname e
    match op with
    | .minus => pure (wrap64 (-v))
    | .tilde => pure (-v - 1)
    | .bang => pure (if v = 0 then 1 else 0)
    | .plus => pure v
  | .binaryOp op l r _ => do
    let lhs ← evalConstInit varname l
    let rhs ← evalConstInit varname r
    evalConstBinary varname op lhs rhs
  | .conditional c t e => do
    let cond ← evalConstInit varname c
    if cond ≠ 0 then evalConstInit varname t else evalConstInit varname e
  | _ => throw s!"error: initializer for block-scope static '{varname}' must be a constant expression"

def checkDuplicate (name : String) : Gen Unit := do
  let cg ← get
  errorIf ((cg.locals.drop cg.scopeStart).any (·.name = name))
    s!"error: duplicate declaration of variable '{name}'"

/-- Registers a block-scope static under a fresh label in both tables. -/
def addLocalStatic (name : String) (localSize : Nat) (isConst isUnsigned : Bool)
    (sv : LocalStaticVar) : Gen Unit := do
  let id ← newLabel
  let cg ← get
  let label := Symbol.static cg.currentFunc id
  addLocal {
    name
    offset := 0
    size := localSize
    kind := sv.kind
    fullType := sv.fullType
    isConst
    isUnsigned
    isStatic := true
    staticLabel := label
    isRegister := false }
  modify fun cg => { cg with localStatics := cg.localStatics ++ [{ sv with label }] }

def staticVar (kind : TypeKind) (fullType : Option CType) (size : Nat) (isUnsigned : Bool)
    (initNode : Option Expr) : LocalStaticVar where
  label := .named ""
  kind
  fullType
  size
  isInitialized := initNode.isSome
  initValue := 0
  isUnsigned
  initNode
  isLabelInit := false

def checkStaticList (name : String) (allowed : Bool) : Gen Unit := do
  errorIf (allowed = false)
    (s!"error: initializer for block-scope static '{name}'" ++
      " must be a brace-enclosed constant list")

def genStaticArray (info : DeclInfo) (t : CType) (init : Option Expr) : Gen Unit := do
  let elem ← nonNull t.base
  checkStaticList info.name (init.elim true fun e =>
    isInitializerList e || (elem.kind = .char && isStringLiteral e))
  addLocalStatic info.name (typeKindBytes elem.kind) info.isConst false
    (staticVar .array (some t) t.size false init)

def genStaticRecord (info : DeclInfo) (t : CType) (init : Option Expr) : Gen Unit := do
  errorIf (t.size = 0) s!"error: variable '{info.name}' has incomplete {info.declType.name} type"
  checkStaticList info.name (init.elim true isInitializerList)
  addLocalStatic info.name t.size info.isConst false
    (staticVar info.declType (some t) t.size false init)

def isAddressConstant : Expr → Bool
  | .varRef _ | .addrOf _ => true
  | _ => false

def genStaticScalar (info : DeclInfo) (init : Option Expr) : Gen Unit := do
  let size := typeKindBytes info.declType
  let var := staticVar info.declType info.fullType size info.isUnsigned none
  match init with
  | none => addLocalStatic info.name size info.isConst info.isUnsigned var
  | some e =>
    if info.declType = .pointer ∧ isAddressConstant e = true then
      addLocalStatic info.name size info.isConst info.isUnsigned
        { var with isInitialized := true, initNode := some e, isLabelInit := true }
    else do
      let initValue ← evalConstInit info.name e
      addLocalStatic info.name size info.isConst info.isUnsigned
        { var with isInitialized := true, initValue }

def genStaticDeclaration (info : DeclInfo) (init : Option Expr) : Gen Unit :=
  match info.declType, info.fullType with
  | .array, some t => genStaticArray info t init
  | .struct, some t => genStaticRecord info t init
  | .union, some t => genStaticRecord info t init
  | _, _ => genStaticScalar info init

def isRegisterClass (info : DeclInfo) : Bool := info.storage = .register

def initDeclaredUnion (name : String) (t : CType) (offset : Int) (items : List ExprGen) :
    Gen Unit := do
  let cg ← get
  match items, cg.fields t with
  | _ :: _ :: _, _ => throw s!"error: too many initializers for union '{name}'"
  | [elem], f :: _ => initUnionMember f offset elem
  | _, _ => pure ()

def copyDeclaredRecord (info : DeclInfo) (t : CType) (offset : Int) (src : LocalVar) :
    Gen Unit :=
  match src.fullType with
  | none =>
    throw s!"error: {info.declType.name} initializer must be a {info.declType.name} variable"
  | some s => do
    errorIf (src.kind ≠ info.declType)
      s!"error: {info.declType.name} initializer must be a {info.declType.name} variable"
    errorIf (sameRecord s t = false)
      s!"error: incompatible {info.declType.name} types in initializer for '{info.name}'"
    emitAll (copyBytesLocal offset src.offset t.size)

def initRecordFromValue (info : DeclInfo) (t : CType) (offset : Int) (init : ExprGen) :
    Gen Unit := do
  let cg ← get
  match localOfVarRef cg init.node with
  | some src => copyDeclaredRecord info t offset src
  | none => do
    let st ← init.emitStructAddr
    errorIf (sameRecord st t = false)
      s!"error: incompatible {info.declType.name} types in initializer for '{info.name}'"
    emit (movReg .qword .rsi .rax)
    emit (.lea .rdi (frame offset))
    emitAll (emitStructCopy t.size)

def initRecord (info : DeclInfo) (t : CType) (offset : Int) (init : ExprGen) : Gen Unit :=
  if isInitializerList init.node = true then do
    emitAll (zeroBytes offset t.size)
    if info.declType = .union then initDeclaredUnion info.name t offset init.children
    else init.emitLocalStructInit t offset
  else initRecordFromValue info t offset init

def genRecordDeclaration (info : DeclInfo) (t : CType) (init : Option ExprGen) : Gen Unit := do
  errorIf (t.size = 0) s!"error: variable '{info.name}' has incomplete {info.declType.name} type"
  let offset ← codegenAddVar info.name t.size t.alignment info.declType (some t)
    info.isConst false (isRegisterClass info)
  match init with
  | none => pure ()
  | some e => initRecord info t offset e

/-- `byte_length` and `value` of the initializer as the byte loop reads them. -/
def literalBytes : Expr → Gen (List UInt8)
  | .stringLiteral bytes => pure bytes
  | .charLiteral byte => pure [byte]
  | .compoundLiteral _ _ _ _ _ => throw "segmentation fault: read past the end of a string"
  | _ => pure []

def initStringBytes (offset : Int) : Nat → List UInt8 → List Asm
  | 0, _ => []
  | n + 1, bytes =>
    .storeImm .byte (frame offset) ((bytes.head?.elim 0 UInt8.toNat : Nat) : Int) ::
      initStringBytes (offset - 1) n bytes.tail

def initArrayObject (info : DeclInfo) (elem : CType) (length size : Nat) (offset : Int)
    (init : ExprGen) : Gen Unit :=
  if isInitializerList init.node = true then do
    emitAll (zeroBytes offset size)
    initArray elem length s!"error: too many initializers for array '{info.name}'" offset 0
      init.children
  else do
    let bytes ← literalBytes init.node
    emitAll (initStringBytes offset size bytes)

def genArrayDeclaration (info : DeclInfo) (init : Option ExprGen) : Gen Unit :=
  match info.fullType with
  | some (.array elem length quals) => do
    let t : CType := .array elem length quals
    let offset ← codegenAddVar info.name t.size elem.alignment .array (some t)
      info.isConst false (isRegisterClass info)
    match init with
    | none => pure ()
    | some e => initArrayObject info elem length t.size offset e
  | _ => throw "segmentation fault: null pointer"

def genFloatingDeclaration (info : DeclInfo) (init : Option ExprGen) : Gen Unit := do
  let size := typeKindBytes info.declType
  let offset ← codegenAddVar info.name size size info.declType info.fullType
    info.isConst false (isRegisterClass info)
  match init with
  | none => pure ()
  | some e => do
    let a ← e.codegenExpression
    emitAll (emitFpWidenIfNeeded a.resultType info.declType)
    emit (storeFp info.declType (frame offset))

def checkPointerInit (info : DeclInfo) (a : Ann) : Gen Unit := do
  errorIf (info.declType ≠ .pointer)
    s!"error: variable '{info.name}' assigning pointer to non pointer"
  errorIf (a.resultType ≠ .pointer)
    s!"error: variable '{info.name}' assigning non pointer to pointer"
  errorIf (pointerTypesAssignable info.fullType a.fullType = false)
    s!"error: variable '{info.name}' incompatible pointer type in initializer"
  if discardsConst info.fullType a.fullType = true then
    warn (s!"warning: initialization of '{info.name}' discards 'const' qualifier" ++
      " from pointer target type")

def isNullPointerInit (info : DeclInfo) (init : Expr) : Bool :=
  info.declType = .pointer && isNullPointerConstant init

def initScalar (info : DeclInfo) (size : Nat) (offset : Int) (init : ExprGen) : Gen Unit := do
  let a ← init.codegenExpression
  let isNull := isNullPointerInit info init.node
  onlyIf (isNull = false ∧ (info.declType = .pointer ∨ a.resultType = .pointer))
    (checkPointerInit info a)
  let rhsIsLong := isLongKind a.resultType || isNull || (size = 8 && a.isUnsigned)
  emitAll (if info.declType = .bool then emitBoolNormalize rhsIsLong else [])
  emitAll (emitStoreLocal offset size rhsIsLong)

def genScalarDeclaration (info : DeclInfo) (init : Option ExprGen) : Gen Unit := do
  let size := typeKindBytes info.declType
  let offset ← codegenAddVar info.name size size info.declType info.fullType
    info.isConst info.isUnsigned (isRegisterClass info)
  match init with
  | none => pure ()
  | some e => initScalar info size offset e

def genDeclaration (info : DeclInfo) (init : Option ExprGen) : Gen Unit := do
  checkDuplicate info.name
  if info.storage = .static then genStaticDeclaration info (init.map ExprGen.node)
  else
    match recordType info.declType info.fullType with
    | some t => genRecordDeclaration info t init
    | none =>
      if info.declType = .array then genArrayDeclaration info init
      else if typeIsFp info.declType then genFloatingDeclaration info init
      else genScalarDeclaration info init

end ClaudeC99
