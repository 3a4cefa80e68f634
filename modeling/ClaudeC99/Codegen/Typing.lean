import ClaudeC99.Codegen.State

/-! The kinds code generation computes for expressions without emitting code. -/

namespace ClaudeC99

def promoteKind (t : TypeKind) : TypeKind :=
  if t = .long ∨ t = .longLong ∨ t = .unsignedLongLong then .long else .int

def commonArithKind (a b : TypeKind) : TypeKind :=
  if promoteKind a = .long ∨ promoteKind b = .long then .long else .int

def fpCommonArithKind (a b : TypeKind) : TypeKind :=
  if a = .double ∨ b = .double then .double
  else if a = .float ∨ b = .float then .float
  else commonArithKind a b

/-- The kind `uac_is_unsigned` compares ranks with. -/
def uacRank (k : TypeKind) : TypeKind :=
  if k = .char ∨ k = .short then .int
  else if k = .longLong ∨ k = .unsignedLongLong then .long
  else k

def uacIsUnsigned (ak : TypeKind) (au : Bool) (bk : TypeKind) (bu : Bool) : Bool :=
  let ulongPresent := (au && uacRank ak = .long) || (bu && uacRank bk = .long)
  let slongPresent := (!au && uacRank ak = .long) || (!bu && uacRank bk = .long)
  if au = bu then au
  else if ulongPresent then true
  else if slongPresent then false
  else true

def typeKindFromSize (size : Nat) : TypeKind := if size = 8 then .long else .int

def isNullPointerConstant : Expr → Bool
  | .intLiteral (.dec 0) _ _ => true
  | _ => false

def isIntegerConstant : Expr → Bool
  | .intLiteral _ _ _ => true
  | _ => false

def pointerChainsEqual : CType → CType → Bool
  | .pointer a _, .pointer b _ => pointerChainsEqual a b
  | a, b => a.kind = b.kind

def pointerTypesEqual : Option CType → Option CType → Bool
  | some a, some b => pointerChainsEqual a b
  | none, none => true
  | _, _ => false

def isVoidPtr : CType → Bool
  | .pointer b _ => b.kind = .void
  | _ => false

def isFunctionPtr : CType → Bool
  | .pointer b _ => b.kind = .function
  | _ => false

def pointerTypesAssignable : Option CType → Option CType → Bool
  | some dst, some src =>
    if dst.kind ≠ .pointer ∨ src.kind ≠ .pointer then false
    else if isFunctionPtr dst ∨ isFunctionPtr src then pointerTypesEqual dst src
    else if isVoidPtr dst ∨ isVoidPtr src then true
    else pointerTypesEqual dst src
  | _, _ => false

def funcPtrTypesEqualCg : Option CType → Option CType → Bool
  | some (.pointer (.function ra pa) _), some (.pointer (.function rb pb) _) =>
    ra.kind = rb.kind && pa.map CType.kind = pb.map CType.kind
  | none, none => true
  | _, _ => false

/-- `FUNC_TYPE_MAX_PARAMS` -/
def funcTypeMaxParams : Nat := 16

def paramType (declType : TypeKind) (fullType : Option CType) : CType :=
  match declType, fullType with
  | .pointer, some t => t
  | k, _ => typeFromKind k

def buildFuncDesignatorType (f : FunctionSig) : CType :=
  .typePointer (.function (paramType f.declType f.fullType)
    ((f.params.take funcTypeMaxParams).map fun p => paramType p.declType p.fullType))

/-- The element type of an array or pointer object. -/
def indexedBase (kind : TypeKind) (fullType : Option CType) : Option CType :=
  if kind = .array ∨ kind = .pointer then fullType.bind CType.base else none

def pointee (kind : TypeKind) (fullType : Option CType) : Option CType :=
  if kind = .pointer then fullType.bind CType.base else none

def pointerBase : Option CType → Option CType
  | some (.pointer b _) => some b
  | _ => none

def recordType (kind : TypeKind) (fullType : Option CType) : Option CType :=
  if isStructOrUnionKind kind then fullType else none

def onlyRecord (t : Option CType) : Option CType := t.filter (isStructOrUnionKind ·.kind)

def pointeeRecord (kind : TypeKind) (fullType : Option CType) : Option CType :=
  onlyRecord (pointee kind fullType)

namespace CodeGen

variable {α : Type}

/-- A local that fails the test is skipped, and a global of the same name is tried. -/
def localOrGlobal (cg : CodeGen) (name : String) (f : TypeKind → Option CType → Option α) :
    Option α :=
  match (cg.findVar name).bind fun lv => f lv.kind lv.fullType with
  | some a => some a
  | none => (cg.findGlobal name).bind fun gv => f gv.kind gv.fullType

/-- A local hides a global of the same name whether it passes the test or not. -/
def visibleVar (cg : CodeGen) (name : String) (f : TypeKind → Option CType → Option α) :
    Option α :=
  match cg.findVar name with
  | some lv => f lv.kind lv.fullType
  | none => (cg.findGlobal name).bind fun gv => f gv.kind gv.fullType

def localVar (cg : CodeGen) (name : String) (f : TypeKind → Option CType → Option α) :
    Option α :=
  (cg.findVar name).bind fun lv => f lv.kind lv.fullType

def varKind (cg : CodeGen) (name : String) : TypeKind :=
  match cg.findVar name with
  | some lv => lv.kind
  | none => (cg.findGlobal name).elim .int GlobalVar.kind

def fieldOf (cg : CodeGen) (st : Option CType) (field : String) : Option StructField :=
  st.bind fun t => cg.findStructField t field

end CodeGen

def arrayFieldElement (f : StructField) : Option CType :=
  if f.kind = .array then f.fullType.bind CType.base else none

def getSubscriptElementType (cg : CodeGen) : Expr → Option CType
  | .arrayIndex (.varRef name) _ => cg.visibleVar name indexedBase
  | .arrayIndex (.memberAccess (.varRef obj) field) _ =>
    (cg.fieldOf (cg.visibleVar obj recordType) field).bind arrayFieldElement
  | .arrayIndex (.arrowAccess (.varRef obj) field) _ =>
    (cg.fieldOf (onlyRecord (cg.visibleVar obj pointee)) field).bind arrayFieldElement
  | .arrayIndex (.arrayIndex base index) _ =>
    match getSubscriptElementType cg (.arrayIndex base index) with
    | some (.array elem _ _) => some elem
    | inner => inner
  | _ => none

def memberBaseIsConst (cg : CodeGen) : Expr → Bool
  | .varRef name =>
    match cg.findVar name with
    | some lv => lv.isConst
    | none => (cg.findGlobal name).elim false GlobalVar.isConst
  | .memberAccess base _ => memberBaseIsConst cg base
  | _ => false

def sizeofMemberKind (cg : CodeGen) (base : Expr) (field : String) : TypeKind :=
  match base with
  | .varRef name => (cg.fieldOf (cg.localOrGlobal name recordType) field).elim .int StructField.kind
  | .deref (.varRef name) =>
    (cg.fieldOf (cg.localVar name pointeeRecord) field).elim .int StructField.kind
  | .arrayIndex (.varRef name) _ =>
    match cg.fieldOf (onlyRecord (cg.localOrGlobal name indexedBase)) field with
    | some f =>
      if typeIsFp f.kind then f.kind
      else if f.kind = .pointer then .pointer else promoteKind f.kind
    | none => .int
  | _ => .int

def sizeofTypeOfExpr (cg : CodeGen) : Expr → TypeKind
  | .intLiteral _ declType _ => declType
  | .charLiteral _ => .int
  | .varRef name => cg.varKind name
  | .deref (.varRef name) => (cg.localOrGlobal name pointee).elim .int CType.kind
  | .arrayIndex (.varRef name) _ => (cg.localOrGlobal name indexedBase).elim .int CType.kind
  | .binaryOp op l r _ =>
    match op with
    | .add | .sub | .mul | .div | .mod | .bitAnd | .bitXor | .bitOr =>
      let lt := sizeofTypeOfExpr cg l
      let rt := sizeofTypeOfExpr cg r
      if typeIsFp lt || typeIsFp rt then fpCommonArithKind lt rt
      else if lt = .pointer ∨ lt = .array ∨ rt = .pointer ∨ rt = .array then .pointer
      else commonArithKind (promoteKind lt) (promoteKind rt)
    | .shiftLeft | .shiftRight => promoteKind (sizeofTypeOfExpr cg l)
    | _ => .int
  | .unaryOp op e =>
    match op with
    | .plus | .minus | .tilde =>
      let ct := sizeofTypeOfExpr cg e
      if typeIsFp ct then ct else promoteKind ct
    | .bang => .int
  | .stringLiteral _ => .pointer
  | .addrOf _ => .pointer
  | .cast declType _ _ _ => declType
  | .functionCall _ declType _ => declType
  | .prefixIncDec _ e => sizeofTypeOfExpr cg e
  | .postfixIncDec _ e => sizeofTypeOfExpr cg e
  | .assignment name _ => cg.varKind name
  | .assignmentTo target _ => sizeofTypeOfExpr cg target
  | .comma _ r => sizeofTypeOfExpr cg r
  | .memberAccess base field => sizeofMemberKind cg base field
  | .arrowAccess (.varRef name) field =>
    (cg.fieldOf (cg.localOrGlobal name pointeeRecord) field).elim .int StructField.kind
  | _ => .int

def objectResultKind (kind : TypeKind) (size : Nat) : TypeKind :=
  if kind = .pointer ∨ kind = .array then .pointer
  else if typeIsFp kind then kind
  else if isStructOrUnionKind kind then kind
  else promoteKind (typeKindFromSize size)

def elementResultKind (element : CType) : TypeKind :=
  if element.kind = .pointer then .pointer
  else if typeIsFp element.kind then element.kind
  else promoteKind (typeKindFromSize element.size)

def fieldResultKind (f : StructField) : TypeKind :=
  if (arrayFieldElement f).isSome then .pointer
  else if typeIsFp f.kind then f.kind
  else if f.kind = .pointer then .pointer
  else promoteKind f.kind

/-- The source looks an assignment through a general lvalue up by its null name and crashes as
soon as there is a local to compare it with. -/
def exprResultType (cg : CodeGen) : Expr → Except String TypeKind
  | .intLiteral _ declType _ => pure declType
  | .floatLiteral _ declType => pure declType
  | .varRef name =>
    match cg.findVar name with
    | some lv => pure (objectResultKind lv.kind lv.size)
    | none => pure ((cg.findGlobal name).elim .int fun gv => objectResultKind gv.kind gv.size)
  | .addrOf _ => pure .pointer
  | .unaryOp op e =>
    match op with
    | .plus | .minus | .tilde => do
      let ct ← exprResultType cg e
      pure (if typeIsFp ct then ct else promoteKind ct)
    | .bang => pure .int
  | .binaryOp op l r _ =>
    match op with
    | .add | .sub => do
      let lt ← exprResultType cg l
      let rt ← exprResultType cg r
      if typeIsFp lt || typeIsFp rt then pure (fpCommonArithKind lt rt)
      else if lt = .pointer ∨ rt = .pointer then pure .pointer
      else pure (commonArithKind lt rt)
    | .mul | .div | .mod => do
      let lt ← exprResultType cg l
      let rt ← exprResultType cg r
      if typeIsFp lt || typeIsFp rt then pure (fpCommonArithKind lt rt)
      else pure (commonArithKind lt rt)
    | .shiftLeft | .shiftRight => do
      let lt ← exprResultType cg l
      pure (promoteKind lt)
    | .bitAnd | .bitXor | .bitOr => do
      let lt ← exprResultType cg l
      let rt ← exprResultType cg r
      pure (commonArithKind lt rt)
    | _ => pure .int
  | .assignment name _ => pure ((cg.findVar name).elim .int fun lv => typeKindFromSize lv.size)
  | .assignmentTo _ _ =>
    if cg.locals.isEmpty then pure .int else throw "segmentation fault: strcmp with a null name"
  | .functionCall _ declType _ => pure declType
  | .cast declType _ _ _ => pure declType
  | .arrayIndex (.varRef name) _ =>
    pure ((cg.visibleVar name indexedBase).elim .int elementResultKind)
  | .sizeofType _ _ => pure .long
  | .sizeofExpr _ => pure .long
  | .comma _ r => exprResultType cg r
  | .memberAccess (.varRef name) field =>
    pure ((cg.fieldOf (cg.localOrGlobal name recordType) field).elim .int fieldResultKind)
  | .memberAccess (.deref (.varRef name)) field =>
    pure ((cg.fieldOf (cg.localOrGlobal name pointeeRecord) field).elim .int fieldResultKind)
  | .memberAccess (.arrayIndex (.varRef name) _) field =>
    pure ((cg.fieldOf (onlyRecord (cg.localOrGlobal name indexedBase)) field).elim
      .int fieldResultKind)
  | .arrowAccess (.varRef name) field =>
    pure ((cg.fieldOf (cg.localOrGlobal name pointeeRecord) field).elim .int fieldResultKind)
  | _ => pure .int

end ClaudeC99
