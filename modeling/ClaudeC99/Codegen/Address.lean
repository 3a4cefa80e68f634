import ClaudeC99.Codegen.Emit

/-! The address helpers: subscripts, members, arrows and struct values. -/

namespace ClaudeC99

open X86

/-- The code generation functions of the source, applied to one node. The helpers below take the
children's `ExprGen` where the source calls itself on the children. -/
structure ExprGen where
  node : Expr
  children : List ExprGen
  codegenExpression : Gen Ann
  emitArrayIndexAddr : Gen CType
  emitMemberAddr : Gen StructField
  emitArrowAddr : Gen StructField
  emitStructAddr : Gen CType
  emitLocalStructInit : CType → Int → Gen Unit
  emitLocalArrayInit : CType → Int → Gen Unit

/-- `codegen_expression(node->children[0])` -/
def ExprGen.operand (g : ExprGen) : Gen Ann :=
  match g.children with
  | child :: _ => child.codegenExpression
  | [] => throw "segmentation fault: no child"

def nonNull {α : Type} : Option α → Gen α
  | some a => pure a
  | none => throw "segmentation fault: null pointer"

def requireField (st : CType) (kind : TypeKind) (field : String) : Gen StructField := do
  let cg ← get
  match cg.findStructField st field with
  | some f => pure f
  | none => throw s!"error: '{kind.name}' has no member '{field}'"

/-- Saves the base address, evaluates the index and leaves `base + index * elemSize` in `rax`. -/
def emitScaledIndex (elemSize : Nat) (index : ExprGen) : Gen Unit := do
  pushReg .rax
  let i ← index.codegenExpression
  errorIf (i.resultType ≠ .int ∧ i.resultType ≠ .long)
    "error: array subscript index must be an integer"
  emitAll (if i.resultType ≠ .long then [movsxdRax] else [])
  emitAll (if elemSize ≠ 1 then [.imulImm .rax .rax elemSize] else [])
  popReg .rbx
  emit (aluReg .add .qword .rax .rbx)

def emitFieldBase (f : StructField) (name : String) : Gen CType :=
  match indexedBase f.kind f.fullType with
  | some element => do
    emitAll (if f.kind = .pointer then [movMem .qword .rax (through .rax)] else [])
    pure element
  | none => throw s!"error: subscript applied to member '{name}' which is not an array or pointer"

/-- The base address of a subscripted variable: an array's own, a pointer's value. -/
def emitVarBase (name : String) (kind : TypeKind) (fullType : Option CType) (a : Address) :
    Gen CType :=
  match kind with
  | .array => do
    let element ← nonNull (fullType.bind CType.base)
    emit (.lea .rax a)
    pure element
  | .pointer => do
    let element ← nonNull (fullType.bind CType.base)
    errorIf (element.kind = .void) s!"error: cannot subscript void pointer '{name}'"
    emit (movMem .qword .rax a)
    pure element
  | _ => throw s!"error: subscript base '{name}' is not an array or pointer"

def emitSubscriptBase (base : ExprGen) : Gen CType :=
  match base.node with
  | .deref (.varRef name) => do
    let cg ← get
    match cg.findVar name with
    | some plv =>
      match pointee plv.kind plv.fullType with
      | some (.array element _ _) => do
        emit (movMem .qword .rax plv.address)
        pure element
      | _ => throw "error: subscript base must be a pointer to array"
    | none => throw "error: subscript base must be a pointer to array"
  | .deref _ => throw "error: subscript base must be an identifier"
  | .arrayIndex _ _ => do
    let inner ← base.emitArrayIndexAddr
    match inner with
    | .pointer element _ => do
      errorIf (element.kind = .void) "error: cannot subscript void pointer"
      emit (movMem .qword .rax (through .rax))
      pure element
    | .array element _ _ => pure element
    | _ => throw "error: subscript base is not a pointer or array"
  | .memberAccess _ field => do
    let f ← base.emitMemberAddr
    emitFieldBase f field
  | .arrowAccess _ field => do
    let f ← base.emitArrowAddr
    emitFieldBase f field
  | .compoundLiteral _ _ _ _ _ => do
    let a ← base.codegenExpression
    match a.fullType with
    | some (.pointer element _) => pure element
    | _ => throw "error: compound literal subscript: expected pointer type"
  | .stringLiteral _ => do
    let _ ← base.codegenExpression
    pure .typeChar
  | .varRef name => do
    let cg ← get
    match cg.findVar name with
    | some lv => emitVarBase name lv.kind lv.fullType lv.address
    | none =>
      match cg.findGlobal name with
      | some gv => emitVarBase name gv.kind gv.fullType (rel gv.symbol)
      | none => throw s!"error: undeclared variable '{name}'"
  | _ => throw "error: subscript base must be an identifier"

def emitArrayIndexAddr (base index : ExprGen) : Gen CType := do
  let element ← emitSubscriptBase base
  emitScaledIndex element.size index
  pure element

/-- Selects a member of the struct that the field `inner`, whose address is in `rax`, holds. -/
def emitInnerField (inner : StructField) (base field : String) : Gen StructField := do
  match recordType inner.kind inner.fullType with
  | none => throw s!"error: '.' applied to non-struct/union member '{base}'"
  | some st => do
    let f ← requireField st inner.kind field
    emitAll (addOffset f.offset)
    pure f

def emitPointedField (field : String) (a : Address) (st : CType) : Gen StructField := do
  let f ← requireField st st.kind field
  emit (movMem .qword .rax a)
  emitAll (addOffset f.offset)
  pure f

def emitMemberAddr (base : ExprGen) (field : String) : Gen StructField :=
  match base.node with
  | .deref (.varRef name) => do
    let cg ← get
    match cg.findVar name with
    | none => throw s!"error: undeclared variable '{name}'"
    | some plv =>
      match pointeeRecord plv.kind plv.fullType with
      | none => throw s!"error: '.' via dereference: '{name}' is not a pointer to struct/union"
      | some st => emitPointedField field plv.address st
  | .deref _ => throw "error: '.' via dereference: pointer must be an identifier"
  | .memberAccess _ inner => do
    let f ← base.emitMemberAddr
    emitInnerField f inner field
  | .arrayIndex _ _ => do
    let element ← base.emitArrayIndexAddr
    if isStructOrUnionKind element.kind then do
      let f ← requireField element element.kind field
      emitAll (addOffset f.offset)
      pure f
    else throw "error: '.' applied to non-struct/union array element"
  | .arrowAccess _ inner => do
    let f ← base.emitArrowAddr
    emitInnerField f inner field
  | .compoundLiteral _ _ _ _ _ => do
    let a ← base.codegenExpression
    match onlyRecord (pointerBase a.fullType) with
    | none => throw "error: '.' applied to non-struct/union compound literal"
    | some st => do
      let f ← requireField st st.kind field
      emitAll (addOffset f.offset)
      pure f
  | .varRef name => do
    let cg ← get
    match cg.findVar name with
    | some lv =>
      match recordType lv.kind lv.fullType with
      | none => throw s!"error: '.' applied to non-struct/union '{name}'"
      | some st => do
        let f ← requireField st lv.kind field
        emit (.lea .rax (if lv.isStatic then .symbol lv.staticLabel f.offset
          else frame ((lv.offset : Int) - f.offset)))
        pure f
    | none =>
      match cg.findGlobal name with
      | none => throw s!"error: undeclared variable '{name}'"
      | some gv =>
        match recordType gv.kind gv.fullType with
        | none => throw s!"error: '.' applied to non-struct/union '{name}'"
        | some st => do
          let f ← requireField st gv.kind field
          emit (.lea .rax (.symbol gv.symbol f.offset))
          pure f
  | _ => throw "error: '.' base must be an identifier"

def emitArrowAddr (base : ExprGen) (field : String) : Gen StructField :=
  match base.node with
  | .memberAccess _ _ => do
    let inner ← base.emitMemberAddr
    match pointeeRecord inner.kind inner.fullType with
    | none => throw "error: '->' applied to non-pointer-to-struct/union"
    | some st => emitPointedField field (through .rax) st
  | .varRef name => do
    let cg ← get
    match cg.findVar name with
    | some lv =>
      match pointeeRecord lv.kind lv.fullType with
      | none => throw s!"error: '->' applied to non-pointer-to-struct/union '{name}'"
      | some st => emitPointedField field lv.address st
    | none =>
      match cg.findGlobal name with
      | none => throw s!"error: undeclared variable '{name}'"
      | some gv =>
        match pointeeRecord gv.kind gv.fullType with
        | none => throw s!"error: '->' applied to non-pointer-to-struct/union '{name}'"
        | some st => emitPointedField field (rel gv.symbol) st
  | _ => do
    let a ← base.codegenExpression
    match onlyRecord (pointerBase a.fullType) with
    | none => throw "error: '->' applied to non-pointer-to-struct/union"
    | some st => do
      let f ← requireField st st.kind field
      emitAll (addOffset f.offset)
      pure f

def requireRecordField (f : StructField) (field : String) : Gen CType :=
  match recordType f.kind f.fullType with
  | some st => pure st
  | none => throw s!"error: member '{field}' is not a struct/union value"

/-- `self` is the node whose struct value is wanted; `operand` is its first child. -/
def emitStructAddr (node : Expr) (self : Gen Ann) (arrayIndexAddr : Gen CType)
    (memberAddr arrowAddr : Gen StructField) (operand : Gen Ann) : Gen CType :=
  match node with
  | .varRef name => do
    let cg ← get
    match cg.findVar name with
    | some lv =>
      match recordType lv.kind lv.fullType with
      | none => throw s!"error: '{name}' is not a struct/union value"
      | some st => do
        emit (.lea .rax lv.address)
        pure st
    | none =>
      match (cg.findGlobal name).bind fun gv => recordType gv.kind gv.fullType with
      | none => throw s!"error: '{name}' is not a struct/union value"
      | some st => do
        emit (.lea .rax (rel (.named name)))
        pure st
  | .memberAccess _ field => do
    let f ← memberAddr
    requireRecordField f field
  | .arrowAccess _ field => do
    let f ← arrowAddr
    requireRecordField f field
  | .arrayIndex _ _ => do
    let element ← arrayIndexAddr
    if isStructOrUnionKind element.kind then pure element
    else throw "error: subscripted value is not a struct/union"
  | .deref _ => do
    let a ← operand
    match onlyRecord (pointerBase a.fullType) with
    | some st => pure st
    | none => throw "error: dereferenced value is not a pointer to struct/union"
  | .functionCall _ declType _ => do
    let a ← self
    match recordType declType a.fullType with
    | some st => pure st
    | none => throw "error: call does not return a struct/union value"
  | .compoundLiteral declType _ _ _ _ => do
    let a ← self
    match a.fullType with
    | some t =>
      if isStructOrUnionKind declType then nonNull t.base
      else throw "error: compound literal is not a struct/union value"
    | none => throw "error: compound literal is not a struct/union value"
  | .vaArg _ _ => do
    let a ← self
    match recordType a.resultType a.fullType with
    | some st => pure st
    | none => throw "error: va_arg does not yield a struct/union value"
  | _ => throw "error: expression is not a usable struct/union value"

end ClaudeC99
