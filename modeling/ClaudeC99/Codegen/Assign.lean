import ClaudeC99.Codegen.Address

/-! Assignments, reads through lvalues, address-of, increments and decrements. -/

namespace ClaudeC99

open X86

def discardsConst (dst src : Option CType) : Bool :=
  match pointerBase dst, pointerBase src with
  | some d, some s => s.isConst && !d.isConst
  | _, _ => false

def sameRecord : CType → CType → Bool
  | .record _ t n _ _, .record _ t' n' _ _ => t = t' ∧ n = n'
  | _, _ => false

def isVoidCall : Expr → Bool
  | .functionCall _ .void _ => true
  | _ => false

/-- The destination address is in `rax`. -/
def storeStruct (size : Nat) (value : ExprGen) : Gen Unit := do
  pushReg .rax
  let _ ← value.emitStructAddr
  emit (movReg .qword .rsi .rax)
  popReg .rdi
  emitAll (emitStructCopy size)

def storeFloating (kind : TypeKind) (value : ExprGen) : Gen Unit := do
  pushReg .rax
  let a ← value.codegenExpression
  emitAll (emitFpWidenIfNeeded a.resultType kind)
  popReg .rbx
  emit (storeFp kind (through .rbx))

def checkElementAssignment (element : CType) (value : ExprGen) (a : Ann) : Gen Unit := do
  if element.kind = .pointer ∧ isNullPointerConstant value.node = false then do
    errorIf (a.resultType ≠ .pointer) "error: assigning nonzero integer to pointer"
    errorIf (pointerTypesAssignable (some element) a.fullType = false)
      "error: incompatible pointer type in array element assignment"

def pointerFullType (t : CType) : Option CType := if t.kind = .pointer then some t else none

def assignElement (target value : ExprGen) : Gen Ann := do
  let element ← target.emitArrayIndexAddr
  errorIf element.isConst "error: assignment through pointer to const-qualified type"
  if isStructOrUnionKind element.kind then do
    storeStruct element.size value
    pure ⟨element.kind, some element, false⟩
  else if typeIsFp element.kind then do
    storeFloating element.kind value
    pure (.ofKind element.kind)
  else do
    pushReg .rax
    let a ← value.codegenExpression
    checkElementAssignment element value a
    emitAll (emitConvert a.resultType element.kind)
    popReg .rbx
    emit (storeSized element.size (through .rbx))
    pure ⟨element.kind, pointerFullType element, false⟩

def storeBitfield (f : StructField) (value : ExprGen) : Gen Unit := do
  pushReg .rax
  let _ ← value.codegenExpression
  emitAll (maskField f)
  emitAll (shiftField .shl f)
  emit (movReg .dword .rcx .rax)
  popReg .rbx
  emit (movMem .dword .rax (through .rbx))
  emit (aluImm .and .dword .rax (bitfieldClearMask f))
  emit (aluReg .or .dword .rax .rcx)
  emit (.store .dword (through .rbx) .rax)
  emitAll (shiftField .shr f)
  emitAll (maskField f)

/-- The member's address is in `rax`. -/
def storeMember (f : StructField) (value : ExprGen) : Gen Ann := do
  if f.isBitfield then do
    storeBitfield f value
    pure (.ofKind .int)
  else if isStructOrUnionKind f.kind then do
    storeStruct (fieldSize f) value
    pure ⟨f.kind, f.fullType, false⟩
  else if typeIsFp f.kind then do
    storeFloating f.kind value
    pure (.ofKind f.kind)
  else do
    pushReg .rax
    let _ ← value.codegenExpression
    popReg .rbx
    emit (storeSized (fieldSize f) (through .rbx))
    pure (.ofKind (if f.kind = .pointer then .pointer else promoteKind f.kind))

def assignMember (target value : ExprGen) (field : String) : Gen Ann := do
  let f ← target.emitMemberAddr
  errorIf f.isConst s!"error: assignment to const member '{field}'"
  let cg ← get
  errorIf (memberBaseIsConst cg target.node) "error: assignment to member of const object"
  storeMember f value

def arrowBaseIsConst (cg : CodeGen) : Expr → Bool
  | .varRef name => (cg.visibleVar name pointee).elim false CType.isConst
  | _ => false

def assignArrow (target value : ExprGen) (base : Expr) (field : String) : Gen Ann := do
  let f ← target.emitArrowAddr
  errorIf f.isConst s!"error: assignment to const member '{field}'"
  let cg ← get
  errorIf (arrowBaseIsConst cg base) "error: assignment to member of const object"
  storeMember f value

def assignDeref (target value : ExprGen) : Gen Ann := do
  let p ← target.operand
  match pointerBase p.fullType with
  | none => throw "error: cannot dereference non-pointer value"
  | some base => do
    errorIf base.isConst "error: assignment through pointer to const-qualified type"
    if isStructOrUnionKind base.kind then do
      storeStruct base.size value
      pure ⟨base.kind, some base, false⟩
    else do
      pushReg .rax
      let a ← value.codegenExpression
      emitAll (emitConvert a.resultType base.kind)
      popReg .rbx
      emit (storeSized base.size (through .rbx))
      pure ⟨base.kind, pointerFullType base, false⟩

def genAssignmentTo (target value : ExprGen) : Gen Ann :=
  match target.node with
  | .arrayIndex _ _ => assignElement target value
  | .memberAccess _ field => assignMember target value field
  | .arrowAccess base field => assignArrow target value base field
  | .deref _ => assignDeref target value
  | _ => throw "segmentation fault: strcmp with a null name"

def copyLocalStruct (lv : LocalVar) (st : CType) (src : LocalVar) : Gen Unit :=
  match recordType src.kind src.fullType with
  | none => throw s!"error: cannot assign non-{lv.kind.name} to {lv.kind.name} '{lv.name}'"
  | some t => do
    errorIf (src.kind ≠ lv.kind)
      s!"error: cannot assign non-{lv.kind.name} to {lv.kind.name} '{lv.name}'"
    errorIf (sameRecord t st = false)
      s!"error: incompatible {lv.kind.name} types in assignment to '{lv.name}'"
    emitAll (copyBytesLocal lv.offset src.offset st.size)

def localOfVarRef (cg : CodeGen) : Expr → Option LocalVar
  | .varRef name => cg.findVar name
  | _ => none

def assignLocalStruct (lv : LocalVar) (st : CType) (value : ExprGen) : Gen Unit := do
  let cg ← get
  match localOfVarRef cg value.node with
  | some src => copyLocalStruct lv st src
  | none => do
    let t ← value.emitStructAddr
    errorIf (sameRecord t st = false)
      s!"error: incompatible {lv.kind.name} types in assignment to '{lv.name}'"
    emit (movReg .qword .rsi .rax)
    emit (.lea .rdi (frame lv.offset))
    emitAll (emitStructCopy st.size)

def checkPointerAssignment (name : String) (kind : TypeKind) (fullType : Option CType)
    (value : Expr) (a : Ann) : Gen Unit := do
  errorIf ((pointee kind fullType).map CType.kind = some .function ∧
      funcPtrTypesEqualCg fullType a.fullType = false)
    s!"error: incompatible function pointer type in assignment to '{name}'"
  if kind = .pointer ∧ isNullPointerConstant value = false ∧
      discardsConst fullType a.fullType = true then
    warn s!"warning: assignment to '{name}' discards 'const' qualifier from pointer target type"

/-- Assignment to a named variable that is neither an array, a struct nor floating. -/
def assignScalar (name : String) (kind : TypeKind) (fullType : Option CType) (size : Nat)
    (store : Bool → List Asm) (value : ExprGen) : Gen Ann := do
  errorIf (isVoidCall value.node)
    s!"error: cannot use void function result in assignment to '{name}'"
  let a ← value.codegenExpression
  checkPointerAssignment name kind fullType value.node a
  let rhsIsLong := isLongKind a.resultType
  emitAll (if kind = .bool then emitBoolNormalize rhsIsLong else [])
  emitAll (store rhsIsLong)
  if kind = .pointer then pure ⟨.pointer, fullType, false⟩
  else pure (.ofKind (typeKindFromSize size))

def assignFloating (kind : TypeKind) (a : Address) (value : ExprGen) : Gen Ann := do
  let v ← value.codegenExpression
  emitAll (emitFpWidenIfNeeded v.resultType kind)
  emit (storeFp kind a)
  pure (.ofKind kind)

def assignLocal (lv : LocalVar) (value : ExprGen) : Gen Ann := do
  errorIf (lv.kind = .array) "error: arrays are not assignable"
  errorIf lv.isConst s!"error: assignment to const variable '{lv.name}'"
  match recordType lv.kind lv.fullType with
  | some st => do
    assignLocalStruct lv st value
    pure ⟨lv.kind, lv.fullType, false⟩
  | none =>
    if typeIsFp lv.kind then assignFloating lv.kind lv.address value
    else assignScalar lv.name lv.kind lv.fullType lv.size (storeLocalVar lv) value

/-- Globals have no struct case. -/
def assignGlobal (gv : GlobalVar) (value : ExprGen) : Gen Ann := do
  errorIf (gv.kind = .array) "error: arrays are not assignable"
  errorIf gv.isConst s!"error: assignment to const variable '{gv.name}'"
  if typeIsFp gv.kind then assignFloating gv.kind (rel gv.symbol) value
  else assignScalar gv.name gv.kind gv.fullType gv.size (emitStoreGlobal gv.symbol gv.size) value

def genAssignment (name : String) (value : ExprGen) : Gen Ann := do
  let cg ← get
  match cg.findVar name with
  | some lv => assignLocal lv value
  | none =>
    match cg.findGlobal name with
    | some gv => assignGlobal gv value
    | none => throw s!"error: undeclared variable '{name}'"

def genAddrOfVar (name : String) : Gen Ann := do
  let cg ← get
  match cg.findVar name with
  | some lv => do
    errorIf lv.isRegister s!"error: cannot take address of register variable '{lv.name}'"
    emit (.lea .rax lv.address)
    let t ← nonNull (localVarType lv)
    pure (.pointerTo t)
  | none =>
    match cg.findGlobal name with
    | none => throw s!"error: undeclared variable '{name}'"
    | some gv => do
      emit (.lea .rax (rel gv.symbol))
      pure (.pointerTo (globalVarType gv))

def isAddressedKind (kind : TypeKind) : Bool := isStructOrUnionKind kind || kind = .array

/-- The type of the object an aggregate literal's pointer type points to. -/
def literalBase : Option CType → Gen CType
  | some t => nonNull t.base
  | none => pure .typeInt

/-- The parser takes no literal for the operand, but the optimizer may put one there. -/
def genAddrOf (operand : ExprGen) : Gen Ann :=
  match operand.node with
  | .arrayIndex _ _ => do
    let element ← operand.emitArrayIndexAddr
    pure (.pointerTo element)
  | .compoundLiteral declType _ _ slot _ => do
    let a ← operand.codegenExpression
    if isAddressedKind declType then do
      let base ← literalBase a.fullType
      pure (.pointerTo base)
    else do
      emit (.lea .rax (frame slot))
      pure (.pointerTo (a.fullType.getD (typeFromKind declType)))
  | .memberAccess _ _ => do
    let f ← operand.emitMemberAddr
    pure (.pointerTo (structFieldType f))
  | .arrowAccess _ _ => do
    let f ← operand.emitArrowAddr
    pure (.pointerTo (structFieldType f))
  | .varRef name => genAddrOfVar name
  | .intLiteral value _ _ => throw s!"error: undeclared variable '{value.toInt}'"
  | _ => throw "segmentation fault: strcmp with a null name"

def genDeref (operand : ExprGen) : Gen Ann := do
  let a ← operand.codegenExpression
  match pointerBase a.fullType with
  | none => throw "error: cannot dereference non-pointer value"
  | some base => do
    errorIf (base.kind = .void) "error: cannot dereference void pointer"
    if base.kind = .function then pure ⟨.pointer, a.fullType, false⟩
    else do
      emit (loadSized base.size false (through .rax))
      pure ⟨base.kind, pointerFullType base, false⟩

def genArrayIndex (addr : Gen CType) : Gen Ann := do
  let element ← addr
  match element with
  | .array inner _ _ => pure (.pointerTo inner)
  | _ =>
    if typeIsFp element.kind then do
      emit (loadFp element.kind (through .rax))
      pure (.ofKind element.kind)
    else do
      emit (loadSized element.size false (through .rax))
      pure ⟨element.kind, pointerFullType element, false⟩

/-- Reading `s.m` and `p->m`; the member's address is computed by `addr`. -/
def genMemberRead (addr : Gen StructField) : Gen Ann := do
  let f ← addr
  if f.isBitfield then do
    emitAll (loadBitfield f)
    pure (.ofKind .int)
  else
    match arrayFieldElement f with
    | some element => pure (.pointerTo element)
    | none =>
      if typeIsFp f.kind then do
        emit (loadFp f.kind (through .rax))
        pure (.ofKind f.kind)
      else do
        emit (loadSized (fieldSize f) false (through .rax))
        if f.kind = .pointer then pure ⟨.pointer, f.fullType, false⟩
        else pure (.ofKind (promoteKind f.kind))

end ClaudeC99
