import ClaudeC99.Codegen.Assign

/-! Binary operators, `?:` and the comma operator. -/

namespace ClaudeC99

open X86

def emitLogicalTest (kind : TypeKind) : List Asm :=
  if typeIsFp kind then emitFpBoolToRax kind ++ [aluReg .test .qword .rax .rax]
  else if kind = .long then [aluImm .cmp .qword .rax 0]
  else [aluImm .cmp .dword .rax 0]

def evalLogicalOperand (operand : ExprGen) : Gen Unit := do
  let a ← operand.codegenExpression
  emitAll (emitLogicalTest a.resultType)

def evalSecondOperand (operand : ExprGen) : Gen Unit := do
  evalLogicalOperand operand
  emitAll [.setcc .ne .rax, movzxEaxAl]

/-- `&&` with `short = e`, `||` with `short = ne`. -/
def genLogical (short : Cond) (shortKind endKind : LabelKind) (shortValue : Int)
    (left right : ExprGen) : Gen Ann := do
  let labelId ← newLabel
  let _ ← emitBranch short shortKind endKind labelId (evalLogicalOperand left)
    (evalSecondOperand right) (emit (movImm .dword .rax shortValue))
  pure (.ofKind .int)

def genLogicalAnd : ExprGen → ExprGen → Gen Ann := genLogical .e .andFalse .andEnd 0

def genLogicalOr : ExprGen → ExprGen → Gen Ann := genLogical .ne .orTrue .orEnd 1

def BinaryOp.text : BinaryOp → String
  | .add => "+"
  | .sub => "-"
  | .mul => "*"
  | .div => "/"
  | .mod => "%"
  | .bitAnd => "&"
  | .bitOr => "|"
  | .bitXor => "^"
  | .shiftLeft => "<<"
  | .shiftRight => ">>"
  | .eq => "=="
  | .ne => "!="
  | .lt => "<"
  | .le => "<="
  | .gt => ">"
  | .ge => ">="
  | .logicalAnd => "&&"
  | .logicalOr => "||"

def rejectPointers (op : BinaryOp) (lt rt : TypeKind) : Gen Unit := do
  let text := op.text
  errorIf (lt = .pointer ∨ rt = .pointer)
    s!"error: operator '{text}' not supported on pointer operands"

/-- The bitwise operators widen with `movsxd` whatever the operand's signedness. -/
def widenBitwise (common : TypeKind) (a : Ann) : List Asm :=
  if common = .long ∧ a.resultType ≠ .long then [movsxdRax] else []

def annUac (a b : Ann) : Bool := uacIsUnsigned a.resultType a.isUnsigned b.resultType b.isUnsigned

def genBitwise (op : BinaryOp) (insn : Alu) (left right : ExprGen) : Gen Ann := do
  let cg ← get
  let lt ← exprResultType cg left.node
  let rt ← exprResultType cg right.node
  rejectPointers op lt rt
  let common := commonArithKind lt rt
  let a ← left.codegenExpression
  emitAll (widenBitwise common a)
  pushReg .rax
  let b ← right.codegenExpression
  emitAll (widenBitwise common b)
  popReg .rcx
  emit (aluReg insn (widthOfKind common) .rax .rcx)
  pure ⟨common, none, annUac a b⟩

def shiftInsn (op : BinaryOp) (isUnsigned : Bool) : Shift :=
  if op = .shiftLeft then .shl else if isUnsigned then .shr else .sar

def genShift (op : BinaryOp) (left right : ExprGen) : Gen Ann := do
  let cg ← get
  let lt ← exprResultType cg left.node
  let rt ← exprResultType cg right.node
  rejectPointers op lt rt
  let a ← left.codegenExpression
  pushReg .rax
  let _ ← right.codegenExpression
  popReg .rcx
  let result := promoteKind a.resultType
  emit (.xchg .qword .rax .rcx)
  emit (.shift (shiftInsn op a.isUnsigned) (widthOfKind result) .rax .cl)
  pure ⟨result, none, a.isUnsigned⟩

/-- Brings an operand into `xmm0` in the common floating type. -/
def toCommonFp (useDouble : Bool) (kind : TypeKind) : List Asm :=
  if typeIsFp kind = false then [.cvtFromInt (if useDouble then .double else .single) 0 .rax]
  else if kind = .float ∧ useDouble then [.cvtWiden 0 0]
  else []

/-- Evaluates both operands: left ends in `xmm1`, right in `xmm0`. The slot that holds the left
operand is counted only after the store into it. -/
def emitFpOperands (useDouble : Bool) (left right : ExprGen) : Gen Unit := do
  let p : FpWidth := if useDouble then .double else .single
  let a ← left.codegenExpression
  emitAll (toCommonFp useDouble a.resultType)
  emit (subRsp 8)
  emit (.fstore p (stackArg 0) 0)
  pushDepthInc
  let b ← right.codegenExpression
  emitAll (toCommonFp useDouble b.resultType)
  emit (.fmov p 1 (.mem (stackArg 0)))
  emit (addRsp 8)
  pushDepthDec

def fpArithCode (op : BinaryOp) (p : FpWidth) : List Asm :=
  match op with
  | .add => [.farith .add p 0 (.xmm 1)]
  | .sub => [.farith .sub p 1 (.xmm 0), .fmov p 0 (.xmm 1)]
  | .mul => [.farith .mul p 0 (.xmm 1)]
  | _ => [.farith .div p 1 (.xmm 0), .fmov p 0 (.xmm 1)]

def genFpArith (op : BinaryOp) (result : TypeKind) (left right : ExprGen) : Gen Ann := do
  emitFpOperands (result = .double) left right
  emitAll (fpArithCode op (if result = .double then .double else .single))
  pure (.ofKind result)

def fpCompareCode (op : BinaryOp) : List Asm :=
  match op with
  | .lt => [.setcc .b .rax]
  | .le => [.setcc .be .rax]
  | .gt => [.setcc .a .rax]
  | .ge => [.setcc .ae .rax]
  | .eq => [.setcc .e .rax, .setcc .np .rcx, aluReg .and .byte .rax .rcx]
  | _ => [.setcc .ne .rax, .setcc .p .rcx, aluReg .or .byte .rax .rcx]

def genFpCompare (op : BinaryOp) (result : TypeKind) (left right : ExprGen) : Gen Ann := do
  emitFpOperands (result = .double) left right
  emit (.ucomi (if result = .double then .double else .single) 1 0)
  emitAll (fpCompareCode op)
  emit movzxRaxAl
  pure (.ofKind .int)

def BinaryOp.isCmp : BinaryOp → Bool
  | .eq | .ne | .lt | .le | .gt | .ge => true
  | _ => false

def BinaryOp.isRelCmp : BinaryOp → Bool
  | .lt | .le | .gt | .ge => true
  | _ => false

/-- `+ - * /`; `%` has no floating form. -/
def BinaryOp.isFpArith : BinaryOp → Bool
  | .add | .sub | .mul | .div => true
  | _ => false

inductive PointerMode
  | none | cmp | arith | diff
  deriving DecidableEq, Repr

def pointerMode (op : BinaryOp) (lt rt : TypeKind) : Except String PointerMode :=
  if lt ≠ .pointer ∧ rt ≠ .pointer then pure .none
  else if op.isCmp then pure .cmp
  else match op with
    | .add =>
      if lt = .pointer ∧ rt = .pointer then throw "error: cannot add two pointers"
      else pure .arith
    | .sub =>
      if lt = .pointer ∧ rt = .pointer then pure .diff
      else if rt = .pointer then throw "error: cannot subtract pointer from integer"
      else pure .arith
    | _ =>
      let text := op.text
      throw s!"error: operator '{text}' not supported on pointer operands"

/-- Widening of an operand of `+ - * / %` and the comparisons. -/
def widenOperand (common : TypeKind) (a : Ann) : List Asm :=
  if common = .long ∧ a.resultType ≠ .long ∧ a.resultType ≠ .pointer ∧ a.isUnsigned = false
  then [movsxdRax] else []

def checkPointerCompare (op : BinaryOp) (left right : Expr) (a b : Ann) : Gen Unit := do
  if a.resultType = .pointer ∧ b.resultType = .pointer then do
    errorIf (pointerTypesAssignable a.fullType b.fullType = false)
      "error: incompatible pointer types in comparison"
  else if op.isRelCmp then throw "error: relational comparison requires two pointer operands"
  else if a.resultType = .pointer ∧ isIntegerConstant right = false then
    throw "error: comparing pointer with non-constant integer"
  else if b.resultType = .pointer ∧ isIntegerConstant left = false then
    throw "error: comparing pointer with non-constant integer"

def rejectVoidOrFunction (base : CType) : Gen Unit := do
  errorIf (base.kind = .void) "error: cannot perform pointer arithmetic on void pointer"
  errorIf (base.kind = .function) "error: cannot perform pointer arithmetic on function pointer"

def scaleReg (r : Reg) (size : Nat) : List Asm := if size ≠ 1 then [.imulImm r r size] else []

def subFromRcx (w : Width) : List Asm := [aluReg .sub w .rcx .rax, movReg w .rax .rcx]

/-- Left operand in `rcx`, right operand in `rax`. -/
def genPointerArith (op : BinaryOp) (a b : Ann) : Gen Ann := do
  let ptrType := if a.resultType = .pointer then a.fullType else b.fullType
  match pointerBase ptrType with
  | none => throw "error: pointer arithmetic missing pointer type"
  | some base => do
    rejectVoidOrFunction base
    emitAll (
      if a.resultType = .pointer then
        scaleReg .rax base.size ++
          (if op = .add then [aluReg .add .qword .rax .rcx] else subFromRcx .qword)
      else scaleReg .rcx base.size ++ [aluReg .add .qword .rax .rcx])
    pure ⟨.pointer, ptrType, false⟩

def genPointerDiff (a b : Ann) : Gen Ann :=
  match pointerBase a.fullType, pointerBase b.fullType with
  | some lbase, some rbase => do
    rejectVoidOrFunction lbase
    rejectVoidOrFunction rbase
    errorIf (pointerTypesEqual a.fullType b.fullType = false)
      "error: incompatible pointer types in subtraction"
    emitAll (subFromRcx .qword)
    emitAll (if lbase.size > 1 then
      [.signExtendAcc .qword, movImm .qword .rcx lbase.size, .idiv .qword .rcx] else [])
    pure (.ofKind .long)
  | _, _ => throw "error: pointer subtraction missing pointer type"

def divCode (w : Width) (isUnsigned : Bool) : List Asm :=
  .xchg w .rax .rcx ::
    if isUnsigned then [aluReg .xor .dword .rdx .rdx, .div w .rcx]
    else [.signExtendAcc w, .idiv w .rcx]

def arithCode (op : BinaryOp) (w : Width) (isUnsigned : Bool) : List Asm :=
  match op with
  | .add => [aluReg .add w .rax .rcx]
  | .sub => subFromRcx w
  | .mul => [aluReg .imul w .rax .rcx]
  | .div => divCode w isUnsigned
  | _ => divCode w isUnsigned ++ [movReg w .rax .rdx]

def compareCond (op : BinaryOp) (isUnsigned : Bool) : Cond :=
  match op with
  | .eq => .e
  | .ne => .ne
  | .lt => if isUnsigned then .b else .l
  | .le => if isUnsigned then .be else .le
  | .gt => if isUnsigned then .a else .g
  | _ => if isUnsigned then .ae else .ge

def compareCode (op : BinaryOp) (w : Width) (isUnsigned : Bool) : List Asm :=
  [aluReg .cmp w .rcx .rax, .setcc (compareCond op isUnsigned) .rax, movzxEaxAl]

def genArithResult (op : BinaryOp) (mode : PointerMode) (common : TypeKind) (a b : Ann) :
    Gen Ann := do
  let opIsUnsigned := mode = .none && annUac a b
  if op.isCmp then do
    emitAll (compareCode op (widthOfKind common) (opIsUnsigned || mode = .cmp))
    pure (.ofKind .int)
  else do
    emitAll (arithCode op (widthOfKind common) opIsUnsigned)
    pure ⟨if common = .long then .long else .int, none, opIsUnsigned⟩

def genArith (op : BinaryOp) (lt rt : TypeKind) (left right : ExprGen) : Gen Ann := do
  let mode ← pointerMode op lt rt
  let common := if mode = .none then commonArithKind lt rt else .long
  let a ← left.codegenExpression
  emitAll (widenOperand common a)
  pushReg .rax
  let b ← right.codegenExpression
  emitAll (widenOperand common b)
  popReg .rcx
  match mode with
  | .arith => genPointerArith op a b
  | .diff => genPointerDiff a b
  | .cmp => do
    checkPointerCompare op left.node right.node a b
    genArithResult op mode common a b
  | .none => genArithResult op mode common a b

def genArithOrFp (op : BinaryOp) (left right : ExprGen) : Gen Ann := do
  let cg ← get
  let lt ← exprResultType cg left.node
  let rt ← exprResultType cg right.node
  if (typeIsFp lt || typeIsFp rt) && op.isFpArith then
    genFpArith op (fpCommonArithKind lt rt) left right
  else if (typeIsFp lt || typeIsFp rt) && op.isCmp then
    genFpCompare op (fpCommonArithKind lt rt) left right
  else genArith op lt rt left right

def genBinaryOp (op : BinaryOp) (left right : ExprGen) : Gen Ann :=
  match op with
  | .logicalAnd => genLogicalAnd left right
  | .logicalOr => genLogicalOr left right
  | .bitAnd => genBitwise op .and left right
  | .bitXor => genBitwise op .xor left right
  | .bitOr => genBitwise op .or left right
  | .shiftLeft | .shiftRight => genShift op left right
  | _ => genArithOrFp op left right

def emitConditionalTest (kind : TypeKind) : List Asm :=
  if typeIsFp kind then emitFpBoolToRax kind ++ [aluImm .cmp .dword .rax 0]
  else if kind = .long ∨ kind = .pointer then [aluImm .cmp .qword .rax 0]
  else [aluImm .cmp .dword .rax 0]

/-- The floating type both branches are brought to, `int` when neither is floating. -/
def conditionalFpKind (cg : CodeGen) (thenExpr elseExpr : Expr) : TypeKind :=
  let tk := sizeofTypeOfExpr cg thenExpr
  let fk := sizeofTypeOfExpr cg elseExpr
  if typeIsFp tk || typeIsFp fk then fpCommonArithKind tk fk else .int

def widenBranch (commonFp kind : TypeKind) : List Asm :=
  if typeIsFp commonFp then emitFpWidenIfNeeded kind commonFp else []

def conditionalAnn (commonFp : TypeKind) (thenExpr elseExpr : Expr) (a b : Ann) : Gen Ann :=
  if a.resultType = .pointer ∧ b.resultType = .pointer then
    if pointerTypesEqual a.fullType b.fullType then pure ⟨.pointer, a.fullType, false⟩
    else throw "error: conditional operator has incompatible pointer types"
  else if a.resultType = .pointer ∧ isNullPointerConstant elseExpr = true then
    pure ⟨.pointer, a.fullType, false⟩
  else if b.resultType = .pointer ∧ isNullPointerConstant thenExpr = true then
    pure ⟨.pointer, b.fullType, false⟩
  else if typeIsFp commonFp then pure (.ofKind commonFp)
  else pure (.ofKind (commonArithKind (promoteKind a.resultType) (promoteKind b.resultType)))

def evalCondition (cond : ExprGen) : Gen Unit := do
  let c ← cond.codegenExpression
  emitAll (emitConditionalTest c.resultType)

def evalBranch (commonFp : TypeKind) (value : ExprGen) : Gen Ann := do
  let a ← value.codegenExpression
  emitAll (widenBranch commonFp a.resultType)
  pure a

def genConditional (cond thenExpr elseExpr : ExprGen) : Gen Ann := do
  let labelId ← newLabel
  let cg ← get
  let commonFp := conditionalFpKind cg thenExpr.node elseExpr.node
  let (a, b) ← emitBranch .e .condFalse .condEnd labelId (evalCondition cond)
    (evalBranch commonFp thenExpr) (evalBranch commonFp elseExpr)
  conditionalAnn commonFp thenExpr.node elseExpr.node a b

def genComma (left right : ExprGen) : Gen Ann := do
  let _ ← left.codegenExpression
  let b ← right.codegenExpression
  pure ⟨b.resultType, b.fullType, false⟩

end ClaudeC99
