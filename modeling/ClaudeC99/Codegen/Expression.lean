import ClaudeC99.Codegen.Call
import ClaudeC99.Codegen.Binary
import ClaudeC99.Codegen.VarArgs
import ClaudeC99.Codegen.Init

/-! `codegen_expression`, by recursion on the syntax tree. -/

namespace ClaudeC99

open X86

def genIntLiteral (value : NumText) (declType : TypeKind) (isUnsigned : Bool) : Gen Ann :=
  match declType with
  | .long | .longLong | .unsignedLongLong => do
    emit (movImm .qword .rax value.toInt)
    pure ⟨.long, none, isUnsigned⟩
  | _ => do
    emit (movImm .dword .rax value.toInt)
    pure ⟨.int, none, isUnsigned⟩

def genCharLiteral (byte : UInt8) : Gen Ann := do
  emit (movImm .dword .rax byte.toNat)
  pure (.ofKind .int)

def genFloatLiteral (text : String) (declType : TypeKind) : Gen Ann := do
  let idx ← codegenInternFpLiteral text declType
  emit (loadFp declType (rel (.fpConst idx)))
  pure ⟨declType, (Expr.floatLiteral text declType).parsedFullType, false⟩

def genStringLiteral (bytes : List UInt8) : Gen Ann := do
  let cg ← get
  set { cg with stringPool := cg.stringPool ++ [bytes] }
  emit (.lea .rax (rel (.string cg.stringPool.length)))
  pure (.pointerTo .typeChar)

/-- Loads a variable; `load` is its integer load. -/
def genVarLoad (kind : TypeKind) (fullType : Option CType) (size : Nat) (isUnsigned : Bool)
    (a : Address) (load : List Asm) : Gen Ann :=
  if kind = .array then do
    let element ← nonNull (fullType.bind CType.base)
    emit (.lea .rax a)
    pure (.pointerTo element)
  else if typeIsFp kind then do
    emit (loadFp kind a)
    pure (.ofKind kind)
  else do
    emitAll load
    if kind = .pointer then pure ⟨.pointer, fullType, false⟩
    else pure ⟨promoteKind (typeKindFromSize size), none, isUnsigned⟩

def genVarRef (name : String) : Gen Ann := do
  let cg ← get
  match cg.findVar name with
  | some lv => genVarLoad lv.kind lv.fullType lv.size lv.isUnsigned lv.address (loadLocalVar lv)
  | none =>
    match cg.findGlobal name with
    | some gv =>
      genVarLoad gv.kind gv.fullType gv.size gv.isUnsigned (rel gv.symbol)
        (emitLoadGlobal gv.symbol gv.size gv.isUnsigned)
    | none =>
      match cg.findFunctionDecl name with
      | some f => do
        emit (.lea .rax (rel (.named name)))
        pure ⟨.pointer, some (buildFuncDesignatorType f), false⟩
      | none => throw s!"error: undeclared variable '{name}'"

/-- Node forms without code of their own leave the result type at its initial value. -/
def noCode : Gen Ann := pure (.ofKind .void)

def notAnAddress {α : Type} : Gen α := throw "segmentation fault: no child"

/-- A node that only has a value, and the address it has as a struct value. -/
def ExprGen.ofValue (node : Expr) (children : List ExprGen) (gen : Gen Ann) : ExprGen where
  node
  children
  codegenExpression := gen
  emitArrayIndexAddr := notAnAddress
  emitMemberAddr := notAnAddress
  emitArrowAddr := notAnAddress
  emitStructAddr :=
    ClaudeC99.emitStructAddr node gen notAnAddress notAnAddress notAnAddress notAnAddress
  emitLocalStructInit _ _ := notAnAddress
  emitLocalArrayInit _ _ := notAnAddress

def ExprGen.ofArrayIndex (base index : ExprGen) : ExprGen :=
  let node := .arrayIndex base.node index.node
  let addr := ClaudeC99.emitArrayIndexAddr base index
  { ExprGen.ofValue node [base, index] (genArrayIndex addr) with
    emitArrayIndexAddr := addr
    emitStructAddr :=
      ClaudeC99.emitStructAddr node notAnAddress addr notAnAddress notAnAddress notAnAddress }

def ExprGen.ofMemberAccess (base : ExprGen) (field : String) : ExprGen :=
  let node := .memberAccess base.node field
  let addr := ClaudeC99.emitMemberAddr base field
  { ExprGen.ofValue node [base] (genMemberRead addr) with
    emitMemberAddr := addr
    emitStructAddr :=
      ClaudeC99.emitStructAddr node notAnAddress notAnAddress addr notAnAddress notAnAddress }

def ExprGen.ofArrowAccess (base : ExprGen) (field : String) : ExprGen :=
  let node := .arrowAccess base.node field
  let addr := ClaudeC99.emitArrowAddr base field
  { ExprGen.ofValue node [base] (genMemberRead addr) with
    emitArrowAddr := addr
    emitStructAddr :=
      ClaudeC99.emitStructAddr node notAnAddress notAnAddress notAnAddress addr notAnAddress }

def ExprGen.ofDeref (operand : ExprGen) : ExprGen :=
  let node := .deref operand.node
  { ExprGen.ofValue node [operand] (genDeref operand) with
    emitStructAddr := ClaudeC99.emitStructAddr node notAnAddress notAnAddress notAnAddress
      notAnAddress operand.codegenExpression }

def ExprGen.ofInitializerList (items : List ExprGen) : ExprGen :=
  { ExprGen.ofValue (.initializerList (items.map ExprGen.node)) items noCode with
    emitLocalStructInit := fun st offset => ClaudeC99.emitLocalStructInit st offset items
    emitLocalArrayInit := fun t offset => ClaudeC99.emitLocalArrayInit t offset items }

mutual

def codegen : Expr → ExprGen
  | .intLiteral value declType isUnsigned =>
    .ofValue (.intLiteral value declType isUnsigned) [] (genIntLiteral value declType isUnsigned)
  | .charLiteral byte => .ofValue (.charLiteral byte) [] (genCharLiteral byte)
  | .floatLiteral text declType =>
    .ofValue (.floatLiteral text declType) [] (genFloatLiteral text declType)
  | .stringLiteral bytes => .ofValue (.stringLiteral bytes) [] (genStringLiteral bytes)
  | .varRef name => .ofValue (.varRef name) [] (genVarRef name)
  | .assignment name value =>
    let v := codegen value
    .ofValue (.assignment name value) [v] (genAssignment name v)
  | .assignmentTo target value =>
    let t := codegen target
    let v := codegen value
    .ofValue (.assignmentTo target value) [t, v] (genAssignmentTo t v)
  | .addrOf operand =>
    let o := codegen operand
    .ofValue (.addrOf operand) [o] (genAddrOf o)
  | .deref operand => .ofDeref (codegen operand)
  | .arrayIndex base index => .ofArrayIndex (codegen base) (codegen index)
  | .memberAccess base field => .ofMemberAccess (codegen base) field
  | .arrowAccess base field => .ofArrowAccess (codegen base) field
  | .sizeofType declType fullType =>
    .ofValue (.sizeofType declType fullType) [] (genSizeofType declType fullType)
  | .sizeofExpr operand => .ofValue (.sizeofExpr operand) [codegen operand] (genSizeofExpr operand)
  | .unaryOp op operand =>
    let o := codegen operand
    .ofValue (.unaryOp op operand) [o] (genUnaryOp op o)
  | .binaryOp op left right declType =>
    let l := codegen left
    let r := codegen right
    .ofValue (.binaryOp op left right declType) [l, r] (genBinaryOp op l r)
  | .prefixIncDec op operand =>
    let o := codegen operand
    .ofValue (.prefixIncDec op operand) [o] (genIncDec op false o)
  | .postfixIncDec op operand =>
    let o := codegen operand
    .ofValue (.postfixIncDec op operand) [o] (genIncDec op true o)
  | .cast declType isUnsigned fullType operand =>
    let o := codegen operand
    .ofValue (.cast declType isUnsigned fullType operand) [o]
      (genCast declType isUnsigned fullType o)
  | .functionCall name declType args =>
    let as := codegenList args
    .ofValue (.functionCall name declType args) as (genFunctionCall name declType as)
  | .indirectCall callee args =>
    let c := codegen callee
    let as := codegenList args
    .ofValue (.indirectCall callee args) (c :: as) (genIndirectCall c as)
  | .conditional cond thenExpr elseExpr =>
    let c := codegen cond
    let t := codegen thenExpr
    let e := codegen elseExpr
    .ofValue (.conditional cond thenExpr elseExpr) [c, t, e] (genConditional c t e)
  | .comma left right =>
    let l := codegen left
    let r := codegen right
    .ofValue (.comma left right) [l, r] (genComma l r)
  | .initializerList elements => .ofInitializerList (codegenList elements)
  | .designatedMember field value =>
    .ofValue (.designatedMember field value) [codegen value] noCode
  | .designatedIndex index value =>
    .ofValue (.designatedIndex index value) [codegen value] noCode
  | .compoundLiteral declType fullType isUnsigned slot init =>
    let i := codegen init
    .ofValue (.compoundLiteral declType fullType isUnsigned slot init) [i]
      (genCompoundLiteral declType fullType slot i)
  | .vaStart ap last =>
    .ofValue (.vaStart ap last) [codegen ap, codegen last] (genVaStart ap)
  | .vaEnd ap => .ofValue (.vaEnd ap) [codegen ap] noCode
  | .vaCopy dst src =>
    .ofValue (.vaCopy dst src) [codegen dst, codegen src] (genVaCopy dst src)
  | .vaArg ap type => .ofValue (.vaArg ap type) [codegen ap] (genVaArg ap type)

def codegenList : List Expr → List ExprGen
  | [] => []
  | e :: es => codegen e :: codegenList es

end

def codegenExpression (e : Expr) : Gen Ann := (codegen e).codegenExpression

end ClaudeC99
