import ClaudeC99.Codegen.CallLayout
import ClaudeC99.Codegen.Unary

/-! Direct and indirect calls. -/

namespace ClaudeC99

open X86

/-- An argument with the conversion the call site applies to it. -/
structure CallArg where
  value : ExprGen
  convert : Ann → Gen Unit

structure PlacedArg extends CallArg where
  slot : ArgSlot
  promote : Bool

inductive Spill
  | gp (reg : Nat)
  | xmm (reg : Nat) (isFloat : Bool)
  deriving DecidableEq, Repr

def argConvert (name : String) (param : Option Param) (arg : Expr) (a : Ann) : Gen Unit :=
  match param with
  | none => pure ()
  | some p => do
    let nullConst := isNullPointerConstant arg
    if p.declType = .pointer ∨ a.resultType = .pointer then do
      errorIf (p.declType ≠ .pointer)
        s!"error: function '{name}' parameter '{p.name}' expected integer argument, got pointer"
      errorIf (a.resultType ≠ .pointer ∧ nullConst = false)
        s!"error: function '{name}' parameter '{p.name}' expected pointer argument, got integer"
      errorIf (nullConst = false ∧ pointerTypesAssignable p.fullType a.fullType = false)
        s!"error: function '{name}' parameter '{p.name}' has incompatible pointer type"
    else emitAll (emitConvert a.resultType p.declType)

def indirectArgConvert (index : Nat) (param : CType) (a : Ann) : Gen Unit := do
  let position := index + 1
  if param.kind = .pointer ∨ a.resultType = .pointer then do
    errorIf (param.kind ≠ .pointer)
      s!"error: indirect call argument {position}: expected integer, got pointer"
    errorIf (a.resultType ≠ .pointer)
      s!"error: indirect call argument {position}: expected pointer, got integer"
  else emitAll (emitConvert a.resultType param.kind)

def evalArg (arg : CallArg) : Gen Unit := do
  let a ← arg.value.codegenExpression
  arg.convert a

def pushArgs : List CallArg → Gen Unit
  | [] => pure ()
  | arg :: args => do
    evalArg arg
    pushReg .rax
    pushArgs args

/-- Pops into `arg_regs[n - 1]` down to `arg_regs[0]`. -/
def popArgRegs : Nat → Gen Unit
  | 0 => pure ()
  | n + 1 => do
    popReg (argReg n)
    popArgRegs n

def reserveSlots (n : Nat) : Gen Unit := do
  emit (subRsp (8 * n))
  modify fun cg => { cg with pushDepth := cg.pushDepth + n }

def releaseSlots (n : Nat) : Gen Unit := do
  emit (addRsp (8 * n))
  modify fun cg => { cg with pushDepth := cg.pushDepth - n }

/-- The pad around a call is not counted in `push_depth`. -/
def emitPaddedCall (setup : List Asm) (call : Asm) : Gen Unit := do
  let cg ← get
  if cg.pushDepth % 2 ≠ 0 then do
    emit (subRsp 8)
    emitAll setup
    emit call
    emit (addRsp 8)
  else do
    emitAll setup
    emit call

def storeStackArg (arg : PlacedArg) : List Asm :=
  let dst := stackArg arg.slot.stackOff
  if arg.slot.isFp then
    if arg.promote then [.cvtWiden 0 0, .fstore .double dst 0]
    else [.fstore (if arg.slot.nbytes = 4 then .single else .double) dst 0]
  else [.store .qword dst .rax]

def passOnStack (arg : PlacedArg) : Gen Unit :=
  if arg.slot.mem = false then pure ()
  else if arg.slot.isStruct then do
    let st ← arg.value.emitStructAddr
    emit (movReg .qword .rsi .rax)
    emit (.lea .rdi (stackArg arg.slot.stackOff))
    emitAll (emitStructCopy st.size)
  else do
    evalArg arg.toCallArg
    emitAll (storeStackArg arg)

/-- Phase 1 evaluates the stack-passed arguments into the outgoing area. -/
def storeStackArgs : List PlacedArg → Gen Unit
  | [] => pure ()
  | arg :: args => do
    passOnStack arg
    storeStackArgs args

def spillXmm (isFloat : Bool) : Gen Unit := do
  emit (subRsp 8)
  pushDepthInc
  emit (.fstore (if isFloat then .single else .double) (stackArg 0) 0)

def spillStruct (arg : PlacedArg) : Gen (List Spill) := do
  let _ ← arg.value.emitStructAddr
  emit (movReg .qword .r11 .rax)
  emit (movMem .qword .rax (through .r11))
  pushReg .rax
  if arg.slot.gpCount = 2 then do
    emit (movMem .qword .rax (.based .r11 8))
    pushReg .rax
    pure [.gp arg.slot.gpStart, .gp (arg.slot.gpStart + 1)]
  else pure [.gp arg.slot.gpStart]

def spillArg (arg : PlacedArg) : Gen (List Spill) :=
  if arg.slot.mem then pure []
  else if arg.slot.isStruct then spillStruct arg
  else match arg.slot.xmmIdx with
    | none => do
      evalArg arg.toCallArg
      pushReg .rax
      pure [.gp arg.slot.gpStart]
    | some idx => do
      evalArg arg.toCallArg
      emitAll (if arg.promote then [.cvtWiden 0 0] else [])
      spillXmm (arg.slot.nbytes = 4)
      pure [.xmm idx (arg.slot.nbytes = 4)]

/-- Phase 2 evaluates the register-passed arguments and spills them. -/
def spillRegArgs : List PlacedArg → Gen (List Spill)
  | [] => pure []
  | arg :: args => do
    let spills ← spillArg arg
    let rest ← spillRegArgs args
    pure (spills ++ rest)

/-- The j-th spill sits at `[rsp + (nspill - 1 - j) * 8]`. -/
def loadSpills : List Spill → List Asm
  | [] => []
  | s :: rest =>
    let src := stackArg (8 * rest.length)
    (match s with
      | .gp reg => movMem .qword (argReg reg) src
      | .xmm reg isFloat => .fmov (if isFloat then .single else .double) reg (.mem src)) ::
      loadSpills rest

def restoreSpills (spills : List Spill) : Gen Unit := do
  emitAll (loadSpills spills)
  onlyIf (spills.length > 0) (releaseSlots spills.length)

/-- Slots of the outgoing area, padded so that `rsp` is 16-byte aligned at the call. -/
def outgoingSlots (pushDepth stackBytes : Nat) : Nat :=
  let region := alignUp stackBytes 8 / 8
  if (pushDepth + region) % 2 ≠ 0 then region + 1 else region

def xmmArgCount (items : List ArgSlot) : Nat :=
  (items.filter fun s => s.xmmIdx.isSome).length

def isVariadicCallee (callee : Option FunctionSig) : Bool :=
  callee.elim false FunctionSig.isVariadic

def promotesFloats (callee : Option FunctionSig) : Bool :=
  callee.elim false fun f => f.isVariadic || f.isNoPrototype

def calleeParam (callee : Option FunctionSig) (i : Nat) : Option Param :=
  callee.bind fun f => f.params[i]?

def calleeArgs (name : String) (callee : Option FunctionSig) (args : List ExprGen) :
    List CallArg :=
  args.zipIdx.map fun (arg, i) => ⟨arg, argConvert name (calleeParam callee i) arg.node⟩

def exprResultTypes (cg : CodeGen) : List ExprGen → Except String (List TypeKind)
  | [] => pure []
  | arg :: args => do
    let t ← exprResultType cg arg.node
    let ts ← exprResultTypes cg args
    pure (t :: ts)

/-- Stops at the first floating or struct argument. -/
def anySpecialArg (cg : CodeGen) : List ExprGen → Except String Bool
  | [] => pure false
  | arg :: args => do
    let t ← exprResultType cg arg.node
    if typeIsFp t || isStructOrUnionKind t then pure true else anySpecialArg cg args

def calleeIsSpecial (callee : Option FunctionSig) (nargs : Nat) : Bool :=
  match callee with
  | none => false
  | some f => isStructOrUnionKind f.declType || typeIsFp f.declType ||
      (f.params.take nargs).any fun p => isStructOrUnionKind p.declType || typeIsFp p.declType

def isSpecialCall (cg : CodeGen) (callee : Option FunctionSig) (args : List ExprGen) :
    Except String Bool :=
  if calleeIsSpecial callee args.length then pure true else anySpecialArg cg args

def directArgClass (cg : CodeGen) (callee : Option FunctionSig) (arg : Expr) (actual : TypeKind)
    (i : Nat) : ArgClass :=
  match calleeParam callee i with
  | some p => p.argClass
  | none => extraArgClass cg arg arg.parsedFullType actual

def placeCallArgs (callee : Option FunctionSig) (args : List CallArg) (slots : List ArgSlot)
    (actual : List TypeKind) : List PlacedArg :=
  (args.zip (slots.zip actual)).map fun (arg, slot, kind) =>
    { toCallArg := arg, slot, promote := kind = .float && promotesFloats callee }

def spillSret (sret : Bool) (retTemp : Nat) : Gen (List Spill) := do
  if sret then do
    emit (.lea .rax (frame retTemp))
    pushReg .rax
    pure [.gp 0]
  else pure []

def structResult (retTemp size : Nat) : List Asm :=
  if size > 16 then [.lea .rax (frame retTemp)]
  else
    [.store .qword (frame retTemp) .rax] ++
      (if size > 8 then [.store .qword (frame ((retTemp : Int) - 8)) .rdx] else []) ++
      [.lea .rax (frame retTemp)]

def claimResult (ret : Option CType) : Gen Nat :=
  match ret with
  | some t => claimStructRetTemp t.size
  | none => pure 0

/-- The type of the struct a callee returns by value. -/
def calleeStructType (callee : Option FunctionSig) : Gen (Option CType) :=
  match callee with
  | none => pure none
  | some f =>
    if isStructOrUnionKind f.declType then do
      let t ← nonNull f.fullType
      pure (some t)
    else pure none

def callAnn (declType : TypeKind) (callee : Option FunctionSig) : Ann :=
  match callee with
  | some f => ⟨declType, if f.declType = .pointer then f.fullType else none, false⟩
  | none => .ofKind declType

def emitLayoutCall (slots : Nat) (args : List PlacedArg) (sret : Bool) (retTemp : Nat)
    (setup : List Asm) (call : Asm) : Gen Unit := do
  onlyIf (slots > 0) (reserveSlots slots)
  storeStackArgs args
  let sretSpill ← spillSret sret retTemp
  let spills ← spillRegArgs args
  restoreSpills (sretSpill ++ spills)
  emitAll setup
  emit call
  onlyIf (slots > 0) (releaseSlots slots)

def genSpecialCall (name : String) (declType : TypeKind) (callee : Option FunctionSig)
    (args : List ExprGen) : Gen Ann := do
  let cg ← get
  let actual ← exprResultTypes cg args
  errorIf (args.length > maxCallLayoutItems)
    s!"error: call has {args.length} arguments; max supported is {maxCallLayoutItems}"
  let sret := callee.elim false fun f => returnIsMemoryStruct f.declType f.fullType
  let layout := computeCallLayout sret
    ((args.zip actual).zipIdx.map fun ((arg, kind), i) => directArgClass cg callee arg.node kind i)
  let ret ← calleeStructType callee
  let retTemp ← claimResult ret
  emitLayoutCall (outgoingSlots cg.pushDepth layout.stackBytes)
    (placeCallArgs callee (calleeArgs name callee args) layout.items actual) sret retTemp
    (if isVariadicCallee callee then [movImm .byte .rax (xmmArgCount layout.items)] else [])
    (.call (.named name))
  match ret with
  | some t => do
    emitAll (structResult retTemp t.size)
    pure ⟨t.kind, some t, false⟩
  | none => pure (callAnn declType callee)

def padSlots (pushDepth numStack : Nat) : Nat := (pushDepth + numStack) % 2

/-- More than six scalar arguments: pad, stack arguments from the last, register arguments. -/
def pushManyArgs (args : List CallArg) : Gen Nat := do
  let cg ← get
  let numStack := args.length - 6
  let pad := padSlots cg.pushDepth numStack
  onlyIf (pad > 0) (reserveSlots pad)
  pushArgs (args.drop 6).reverse
  pushArgs (args.take 6)
  popArgRegs 6
  pure (numStack + pad)

def variadicSetup (callee : Option FunctionSig) : List Asm :=
  if isVariadicCallee callee then [aluReg .xor .dword .rax .rax] else []

def genScalarCall (name : String) (callee : Option FunctionSig) (args : List CallArg) :
    Gen Unit := do
  if args.length ≤ 6 then do
    pushArgs args
    popArgRegs args.length
    emitPaddedCall (variadicSetup callee) (.call (.named name))
  else do
    let slots ← pushManyArgs args
    emitAll (variadicSetup callee)
    emit (.call (.named name))
    releaseSlots slots

def genFunctionCall (name : String) (declType : TypeKind) (args : List ExprGen) : Gen Ann := do
  let cg ← get
  let callee := cg.findFunctionDecl name
  let special ← isSpecialCall cg callee args
  if special then genSpecialCall name declType callee args
  else do
    genScalarCall name callee (calleeArgs name callee args)
    pure (callAnn declType callee)

def indirectArgClass (param : CType) : ArgClass :=
  if typeIsFp param.kind then .floating (typeKindBytes param.kind) else .general

def indirectArgs (params : List CType) (args : List ExprGen) : List CallArg :=
  (args.zip params).zipIdx.map fun ((arg, param), i) => ⟨arg, indirectArgConvert i param⟩

/-- The callee address was pushed before the arguments. -/
def genIndirectLayoutCall (params : List CType) (args : List CallArg) : Gen Unit := do
  let cg ← get
  let layout := computeCallLayout false (params.map indirectArgClass)
  let slots := outgoingSlots cg.pushDepth layout.stackBytes
  onlyIf (slots > 0) (reserveSlots slots)
  let placed := (args.zip layout.items).map fun (arg, slot) =>
    ({ toCallArg := arg, slot, promote := false } : PlacedArg)
  storeStackArgs placed
  let spills ← spillRegArgs placed
  restoreSpills spills
  emit (movMem .qword .r10 (stackArg (8 * slots)))
  emit (.callReg .r10)
  releaseSlots (slots + 1)

def genIndirectScalarCall (args : List CallArg) : Gen Unit := do
  if args.length ≤ 6 then do
    pushArgs args
    popArgRegs args.length
    popReg .r10
    emitPaddedCall [] (.callReg .r10)
  else do
    let slots ← pushManyArgs args
    emit (movMem .qword .r10 (stackArg (8 * slots)))
    emit (.callReg .r10)
    releaseSlots (slots + 1)

def checkKnownCallee (cg : CodeGen) : Expr → Gen Unit
  | .varRef name =>
    errorIf ((cg.findVar name).isNone ∧ (cg.findGlobal name).isNone)
      s!"error: call to undefined function '{name}'"
  | _ => pure ()

def genIndirectCall (callee : ExprGen) (args : List ExprGen) : Gen Ann := do
  let cg ← get
  checkKnownCallee cg callee.node
  let a ← callee.codegenExpression
  match a.resultType, a.fullType.bind CType.base with
  | .pointer, some (.function ret params) => do
    errorIf (params.length ≠ args.length)
      s!"error: indirect call expects {params.length} arguments, got {args.length}"
    pushReg .rax
    if params.any fun p => typeIsFp p.kind then
      genIndirectLayoutCall params (indirectArgs params args)
    else genIndirectScalarCall (indirectArgs params args)
    pure ⟨ret.kind, pointerFullType ret, false⟩
  | _, _ => throw "error: expression is not callable"

end ClaudeC99
