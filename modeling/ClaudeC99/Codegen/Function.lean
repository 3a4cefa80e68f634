import ClaudeC99.Codegen.Frame

/-! `codegen_function`: frame layout, prologue, parameter binding, body, implicit epilogue. -/

namespace ClaudeC99

open X86

def paramBytes (p : Param) : Nat :=
  match recordType p.declType p.fullType with
  | some t => alignUp t.size 8
  | none => 8

def FunctionSig.returnsMemoryStruct (f : FunctionSig) : Bool :=
  returnIsMemoryStruct f.declType f.fullType

def needsLayoutPrologue (f : FunctionDef) : Bool :=
  f.returnsMemoryStruct ||
    f.params.any fun p => isStructOrUnionKind p.declType || typeIsFp p.declType

/-- The bytes reserved for locals, literals and temporaries, before rounding. -/
def frameBytes (cg : CodeGen) (f : FunctionDef) : Nat :=
  (f.params.map paramBytes).sum + computeDeclBytes f.body + computeCompoundLiteralBytes f.body +
    computeStructRetBytes cg f.body + (if f.returnsMemoryStruct then 8 else 0) + 40 +
    (if f.isVariadic then 8 + 176 else 0)

def frameSize (cg : CodeGen) (f : FunctionDef) : Nat := alignUp (frameBytes cg f) 16

def savedRegSlots : List Slot := [⟨8, 8, 8⟩, ⟨16, 8, 8⟩, ⟨24, 8, 8⟩, ⟨32, 8, 8⟩, ⟨40, 8, 8⟩]

/-- The state in which a function's code starts; `slots` begins with the saved registers. -/
def beginFunction (f : FunctionDef) : Gen Unit :=
  modify fun cg => { cg with
    locals := []
    stackOffset := 40
    scopeStart := 0
    pushDepth := 0
    userLabels := []
    currentFunc := f.name
    currentReturnType := f.declType
    currentReturnFullType :=
      if f.declType = .pointer ∨ isStructOrUnionKind f.declType = true then f.fullType else none
    currentSretOffset := 0
    slots := savedRegSlots
    temps := [] }

def emitPrologue (stackSize : Nat) : Gen Unit := do
  emitAll [.push .rbp, movReg .qword .rbp .rsp]
  emitAll (if stackSize > 0 then [subRsp stackSize] else [])
  emitAll [
    .store .qword (frame 8) .rbx, .store .qword (frame 16) .r12, .store .qword (frame 24) .r13,
    .store .qword (frame 32) .r14, .store .qword (frame 40) .r15]

def saveArgRegs (rso : Int) : List Asm :=
  [.store .qword (frame rso) .rdi, .store .qword (frame (rso - 8)) .rsi,
    .store .qword (frame (rso - 16)) .rdx, .store .qword (frame (rso - 24)) .rcx,
    .store .qword (frame (rso - 32)) .r8, .store .qword (frame (rso - 40)) .r9] ++
  (List.range 8).map fun i => .movaps (frame (rso - 48 - 16 * i)) i

def setupVariadic (f : FunctionDef) : Gen Unit := do
  let cg ← get
  if f.isVariadic then do
    let namedXmm := (f.params.filter fun p => typeIsFp p.declType).length
    let namedGp := f.params.length - namedXmm
    let rso := alignUp cg.stackOffset 16 + 176
    set { cg with
      stackOffset := rso
      variadicRegSaveOffset := rso
      variadicNamedGpParams := min namedGp 6
      variadicNamedXmmParams := min namedXmm 8
      variadicNamedStackParams := namedGp - 6 }
    recordSlot rso 176 16
    emitAll (saveArgRegs rso)
  else
    set { cg with
      variadicRegSaveOffset := 0
      variadicNamedGpParams := 0
      variadicNamedXmmParams := 0
      variadicNamedStackParams := 0 }

def reserveScratch (scratchBytes : Nat) : Gen Unit :=
  modify fun cg => { cg with
    structRetScratchCursor := cg.stackOffset
    stackOffset := cg.stackOffset + scratchBytes }

def saveSret (f : FunctionDef) : Gen Unit := do
  let cg ← get
  if f.returnsMemoryStruct then do
    let offset := cg.stackOffset + 8
    set { cg with stackOffset := offset, currentSretOffset := offset }
    recordSlot offset 8 8
    emit (.store .qword (frame offset) .rdi)

def asciiBytes (s : String) : List UInt8 := s.toList.map fun c => UInt8.ofNat c.toNat

def declareFuncName (name : String) : Gen Unit := do
  let id ← newLabel
  let label := Symbol.staticFunc name id
  let t := CType.typeArray .typeChar (name.length + 1)
  modify fun cg => { cg with
    localStatics := cg.localStatics ++ [{
      label
      kind := .array
      fullType := some t
      size := name.length + 1
      isInitialized := true
      initValue := 0
      isUnsigned := false
      initNode := some (.stringLiteral (asciiBytes name ++ [0]))
      isLabelInit := false }] }
  addLocal {
    name := "__func__"
    offset := 0
    size := 8
    kind := .array
    fullType := some t
    isConst := true
    isUnsigned := false
    isStatic := true
    staticLabel := label
    isRegister := false }

def addParam (p : Param) (size align : Nat) (isUnsigned : Bool) : Gen Nat :=
  codegenAddVar p.name size align p.declType p.fullType false isUnsigned false

/-- Stores the `size` low bytes of an argument register. -/
def storeParamReg (size : Nat) (offset : Int) (r : Reg) : Asm :=
  match size with
  | 1 => .store .byte (frame offset) r
  | 2 => .store .word (frame offset) r
  | 8 => .store .qword (frame offset) r
  | _ => .store .dword (frame offset) r

def copyParam (size : Nat) (isUnsigned : Bool) (src offset : Int) : List Asm :=
  loadSized size isUnsigned (incoming src) :: emitStoreLocal offset size (size = 8)

def bindRegParam (i : Nat) (p : Param) : Gen Unit := do
  if p.name ≠ "" then do
    let size := typeKindBytes p.declType
    let offset ← addParam p size size p.isUnsigned
    emit (storeParamReg size offset (argReg i))

def bindStackParam (src : Int) (p : Param) : Gen Unit := do
  if p.name ≠ "" then do
    let size := typeKindBytes p.declType
    let offset ← addParam p size size p.isUnsigned
    emitAll (copyParam size p.isUnsigned src offset)

/-- Parameters of a function without struct or floating ones, `i` counting from the left. -/
def bindScalarParams : Nat → List Param → Gen Unit
  | _, [] => pure ()
  | i, p :: ps => do
    if i < 6 then bindRegParam i p else bindStackParam (16 + (i - 6) * 8) p
    bindScalarParams (i + 1) ps

def structSlot (t : CType) : Nat × Nat :=
  (alignUp t.size 8, if t.alignment < 8 then 8 else t.alignment)

def bindRegStruct (slot : ArgSlot) (p : Param) : Gen Unit := do
  let t ← nonNull p.fullType
  let (size, align) := structSlot t
  let offset ← addParam p size align false
  emit (.store .qword (frame offset) (argReg slot.gpStart))
  emitAll (if slot.gpCount = 2 then
    [.store .qword (frame ((offset : Int) - 8)) (argReg (slot.gpStart + 1))] else [])

def bindXmmParam (idx : Nat) (p : Param) : Gen Unit := do
  let size := typeKindBytes p.declType
  let offset ← addParam p size size false
  emit (.fstore (fpWidth p.declType) (frame offset) idx)

def bindPassedInReg (slot : ArgSlot) (p : Param) : Gen Unit :=
  if isStructOrUnionKind p.declType then bindRegStruct slot p
  else match slot.xmmIdx with
    | some idx => bindXmmParam idx p
    | none => do
      let size := typeKindBytes p.declType
      let offset ← addParam p size size p.isUnsigned
      emit (storeParamReg size offset (argReg slot.gpStart))

def bindMemStruct (src : Int) (p : Param) : Gen Unit := do
  let t ← nonNull p.fullType
  let (size, align) := structSlot t
  let offset ← addParam p size align false
  emitAll ([.lea .rsi (incoming src), .lea .rdi (frame offset)] ++ emitStructCopy t.size)

def bindMemFp (src : Int) (p : Param) : Gen Unit := do
  let size := typeKindBytes p.declType
  let offset ← addParam p size size false
  emitAll [loadFp p.declType (incoming src), storeFp p.declType (frame offset)]

def bindPassedOnStack (slot : ArgSlot) (p : Param) : Gen Unit :=
  let src : Int := 16 + slot.stackOff
  if isStructOrUnionKind p.declType then bindMemStruct src p
  else if typeIsFp p.declType then bindMemFp src p
  else do
    let size := typeKindBytes p.declType
    let offset ← addParam p size size p.isUnsigned
    emitAll (copyParam size p.isUnsigned src offset)

def bindPlaced (mem : Bool) (slot : ArgSlot) (p : Param) : Gen Unit :=
  if p.name = "" ∨ slot.mem ≠ mem then pure ()
  else if mem then bindPassedOnStack slot p
  else bindPassedInReg slot p

/-- One pass over the parameters: register-passed ones (`mem = false`), then stack-passed ones. -/
def bindPass (mem : Bool) : List (ArgSlot × Param) → Gen Unit
  | [] => pure ()
  | (slot, p) :: rest => do
    bindPlaced mem slot p
    bindPass mem rest

def paramLayout (f : FunctionSig) : CallLayout :=
  computeCallLayout f.returnsMemoryStruct (f.params.map Param.argClass)

def bindLayoutParams (f : FunctionDef) : Gen Unit := do
  let placed := (paramLayout f.toFunctionSig).items.zip f.params
  errorIf (f.params.length > maxCallLayoutItems)
    s!"error: call has {f.params.length} arguments; max supported is {maxCallLayoutItems}"
  bindPass false placed
  bindPass true placed

def bindParams (f : FunctionDef) : Gen Unit :=
  if needsLayoutPrologue f then bindLayoutParams f else bindScalarParams 0 f.params

def isReturn : Stmt → Bool
  | .returnStmt _ => true
  | _ => false

def endsInReturn (body : List Stmt) : Bool := body.getLast?.elim false isReturn

def emitImplicitEpilogue (f : FunctionDef) : Gen Unit :=
  if (f.declType = .void ∨ f.name = "main") ∧ endsInReturn f.body = false then do
    emitAll (if f.name = "main" then [movImm .dword .rax 0] else [])
    emitEpilogue
  else pure ()

def setupFrame (f : FunctionDef) : Gen Unit := do
  let cg ← get
  emitPrologue (frameSize cg f)
  setupVariadic f
  reserveScratch (computeStructRetBytes cg f.body)
  saveSret f
  declareFuncName f.name
  bindParams f

def codegenFunction (f : FunctionDef) : Gen Unit := do
  beginFunction f
  collectUserLabels f.body
  setupFrame f
  let body ← scanStmts f.body
  codegenStatements [] 0 body
  emitImplicitEpilogue f

end ClaudeC99
