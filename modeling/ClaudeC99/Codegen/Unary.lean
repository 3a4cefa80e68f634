import ClaudeC99.Codegen.Assign

/-! `sizeof`, unary operators, increments, decrements and casts. -/

namespace ClaudeC99

open X86

/-- The `full_type` the parser leaves on an expression node. -/
def Expr.parsedFullType : Expr → Option CType
  | .floatLiteral _ declType => some (if declType = .float then .typeFloat else .typeDouble)
  | .stringLiteral bytes => some (.typeArray .typeChar (bytes.length + 1))
  | .sizeofType _ fullType => fullType
  | .cast _ _ fullType _ => fullType
  | .compoundLiteral _ fullType _ _ _ => fullType
  | .vaArg _ type => some type
  | _ => none

/-- `strlen` stops at the first NUL byte. -/
def strlen (bytes : List UInt8) : Nat := (bytes.takeWhile (· ≠ 0)).length

def sizeofTypeSize (declType : TypeKind) (fullType : Option CType) : Nat :=
  match isAddressedKind declType, fullType with
  | true, some t => t.size
  | _, _ =>
    match declType with
    | .bool | .char => 1
    | .short => 2
    | .long | .longLong | .unsignedLongLong | .pointer => 8
    | _ => 4

def sizeofKindSize (kind : TypeKind) : Nat :=
  match kind with
  | .char => 1
  | .short => 2
  | .long | .longLong | .unsignedLongLong | .pointer => 8
  | _ => 4

def sizeofCastFieldSize (f : StructField) : Nat :=
  match f.fullType with
  | some t => t.size
  | none =>
    match f.kind with
    | .pointer | .long | .longLong | .unsignedLongLong | .double => 8
    | .short => 2
    | .char | .bool => 1
    | _ => 4

/-- The size of an array, struct or union field. -/
def aggregateFieldSize (f : StructField) : Option Nat :=
  if isAddressedKind f.kind then f.fullType.map CType.size else none

def sizeofVarSize (kind : TypeKind) (fullType : Option CType) : Option Nat :=
  if isAddressedKind kind then fullType.map CType.size else none

/-- The special cases of `sizeof expression`, tried before the kind of the operand. -/
def sizeofSpecial (cg : CodeGen) : Expr → Option Nat
  | .varRef name => cg.visibleVar name sizeofVarSize
  | .stringLiteral bytes => some (strlen bytes + 1)
  | .arrayIndex base index => (getSubscriptElementType cg (.arrayIndex base index)).map CType.size
  | .arrowAccess (.varRef name) field =>
    (cg.fieldOf (cg.localVar name pointee) field).bind aggregateFieldSize
  | .memberAccess (.varRef name) field =>
    (cg.fieldOf (cg.localVar name recordType) field).bind aggregateFieldSize
  | .memberAccess (.arrayIndex (.varRef name) _) field =>
    (cg.fieldOf (onlyRecord (cg.localVar name indexedBase)) field).bind aggregateFieldSize
  | .arrowAccess base field =>
    (cg.fieldOf (pointerBase base.parsedFullType) field).map sizeofCastFieldSize
  | _ => none

def sizeofExprSize (cg : CodeGen) (e : Expr) : Nat :=
  (sizeofSpecial cg e).getD (sizeofKindSize (sizeofTypeOfExpr cg e))

def sizeofAnn : Ann := ⟨.long, none, true⟩

def genSizeofType (declType : TypeKind) (fullType : Option CType) : Gen Ann := do
  errorIf (isStructOrUnionKind declType ∧ fullType.map CType.size = some 0)
    s!"error: sizeof applied to incomplete {declType.name} type"
  emit (movImm .qword .rax (sizeofTypeSize declType fullType))
  pure { sizeofAnn with fullType }

def genSizeofExpr (operand : Expr) : Gen Ann := do
  let cg ← get
  emit (movImm .qword .rax (sizeofExprSize cg operand))
  pure sizeofAnn

def genFloatingNot (kind : TypeKind) : List Asm :=
  let p := if kind = .double then FpWidth.double else .single
  [.fxor p 1 (.xmm 1), .ucomi p 0 1, .setcc .e .rax, .setcc .np .rcx,
    aluReg .and .byte .rax .rcx, movzxRaxAl]

def genFloatingUnary (op : UnaryOp) (kind : TypeKind) : Option (List Asm × TypeKind) :=
  match op with
  | .minus => some ([.fxor (fpWidth kind) 0 (.mem (rel (.fpSignMask (fpWidth kind))))], kind)
  | .plus => some ([], kind)
  | .bang => some (genFloatingNot kind, .int)
  | .tilde => none

def genIntegerUnary (op : UnaryOp) (kind : TypeKind) : List Asm × TypeKind :=
  match op with
  | .minus => ([.neg (widthOfKind (promoteKind kind)) .rax], promoteKind kind)
  | .bang =>
    ([aluImm .cmp (if kind = .long ∨ kind = .pointer then .qword else .dword) .rax 0,
      .setcc .e .rax, movzxEaxAl], .int)
  | .tilde => ([.not (widthOfKind (promoteKind kind)) .rax], promoteKind kind)
  | .plus => ([], promoteKind kind)

/-- The node's `is_unsigned` keeps its parse-time value 0. -/
def genUnaryOp (op : UnaryOp) (operand : ExprGen) : Gen Ann := do
  let a ← operand.codegenExpression
  match if typeIsFp a.resultType then genFloatingUnary op a.resultType else none with
  | some (code, kind) => do
    emitAll code
    pure (.ofKind kind)
  | none => do
    errorIf (op = .tilde ∧ a.resultType = .pointer)
      "error: operator '~' not supported on pointer operands"
    let (code, kind) := genIntegerUnary op a.resultType
    emitAll code
    pure (.ofKind kind)

def IncDec.alu : IncDec → Alu
  | .increment => .add
  | .decrement => .sub

def IncDec.fpOp : IncDec → FpOp
  | .increment => .add
  | .decrement => .sub

/-- The load, the adjustment and the store of `++`/`--` on a named variable. -/
def incDecVar (op : IncDec) (isPost : Bool) (kind : TypeKind) (fullType : Option CType)
    (load : List Asm) (store : Bool → List Asm) : Gen Ann :=
  match kind, fullType with
  | .pointer, some t => do
    let elem ← nonNull t.base
    emitAll load
    emitAll (if isPost then [movReg .qword .rcx .rax] else [])
    emit (aluImm op.alu .qword .rax elem.size)
    emitAll (store true)
    emitAll (if isPost then [movReg .qword .rax .rcx] else [])
    pure ⟨.pointer, fullType, false⟩
  | _, _ => do
    emitAll load
    emitAll (if isPost then [movReg .dword .rcx .rax] else [])
    emit (aluImm op.alu .dword .rax 1)
    emitAll (store false)
    emitAll (if isPost then [movReg .dword .rax .rcx] else [])
    pure (.ofKind .int)

def genIncDecVar (op : IncDec) (isPost : Bool) (name : String) : Gen Ann := do
  let cg ← get
  match cg.findVar name with
  | some lv => do
    errorIf lv.isConst s!"error: assignment to const variable '{lv.name}'"
    incDecVar op isPost lv.kind lv.fullType (loadLocalVar lv) (storeLocalVar lv)
  | none =>
    match cg.findGlobal name with
    | none => throw s!"error: undeclared variable '{name}'"
    | some gv =>
      incDecVar op isPost gv.kind gv.fullType (emitLoadGlobal gv.symbol gv.size gv.isUnsigned)
        (emitStoreGlobal gv.symbol gv.size)

/-- Kind, type and size of the object whose address `codegen_inc_dec_general` leaves in `rax`. -/
def incDecOperand (operand : ExprGen) : Gen (TypeKind × Option CType × Nat) :=
  match operand.node with
  | .arrayIndex _ _ => do
    let element ← operand.emitArrayIndexAddr
    pure (element.kind, some element, element.size)
  | .memberAccess _ _ => do
    let f ← operand.emitMemberAddr
    pure (f.kind, f.fullType, f.fullType.elim 0 CType.size)
  | .arrowAccess _ _ => do
    let f ← operand.emitArrowAddr
    pure (f.kind, f.fullType, f.fullType.elim 0 CType.size)
  | .deref _ => do
    let a ← operand.operand
    match pointerBase a.fullType with
    | none => throw "error: cannot dereference non-pointer value"
    | some base => do
      errorIf base.isConst "error: assignment through pointer to const-qualified type"
      pure (base.kind, some base, base.size)
  | _ => throw "error: operand of ++/-- must be a modifiable lvalue"

def incDecFloating (op : IncDec) (isPost : Bool) (kind : TypeKind) : List Asm :=
  let p := fpWidth kind
  (if isPost then [.fmov p 1 (.mem (through .rbx))] else []) ++
    [.fmov p 0 (.mem (through .rbx)), .farith op.fpOp p 0 (.mem (rel (.fpOne p))),
      .fstore p (through .rbx) 0] ++
    (if isPost then [.fmov p 0 (.xmm 1)] else [])

def incDecInteger (op : IncDec) (isPost : Bool) (size step : Nat) : List Asm :=
  [loadSized size false (through .rbx)] ++
    (if isPost then [movReg .qword .rcx .rax] else []) ++
    [aluImm op.alu (if size = 8 then .qword else .dword) .rax step,
      storeSized size (through .rbx)] ++
    (if isPost then [movReg .qword .rax .rcx] else [])

def incDecStep (kind : TypeKind) (fullType : Option CType) : Nat :=
  match kind, fullType.bind CType.base with
  | .pointer, some base => base.size
  | _, _ => 1

def codegenIncDecGeneral (op : IncDec) (isPost : Bool) (operand : ExprGen) : Gen Ann := do
  let (kind, fullType, size) ← incDecOperand operand
  emit (movReg .qword .rbx .rax)
  if typeIsFp kind then do
    emitAll (incDecFloating op isPost kind)
    pure (.ofKind kind)
  else do
    emitAll (incDecInteger op isPost (if size = 0 then scalarFieldSize kind else size)
      (incDecStep kind fullType))
    if kind = .pointer then pure ⟨.pointer, fullType, false⟩
    else pure (.ofKind (promoteKind kind))

def genIncDec (op : IncDec) (isPost : Bool) (operand : ExprGen) : Gen Ann :=
  match operand.node with
  | .varRef name => genIncDecVar op isPost name
  | _ => codegenIncDecGeneral op isPost operand

def genCast (declType : TypeKind) (isUnsigned : Bool) (fullType : Option CType)
    (operand : ExprGen) : Gen Ann := do
  let a ← operand.codegenExpression
  emitAll (emitConvert a.resultType declType)
  pure ⟨declType, fullType, isUnsigned⟩

end ClaudeC99
