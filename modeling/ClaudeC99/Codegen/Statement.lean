import ClaudeC99.Codegen.Declaration

/-! `codegen_statement`: control flow, jumps, switches and scopes. -/

namespace ClaudeC99

open X86

/-- Enters one `case` or `default` node of a switch into its label table. -/
def addSwitchLabel (node : List Nat) (caseValue : Option Int) (ctx : Nat × SwitchCtx) :
    Nat × SwitchCtx :=
  (ctx.1 + 1, {
    entries := ctx.2.entries ++ [⟨node, caseValue, ctx.1⟩]
    defaultLabel := if caseValue.isNone then ctx.1 else ctx.2.defaultLabel })

mutual

/-- Walks a switch body, handing a fresh label to each case and default in it. Nested switches
keep theirs. The counter and the table are threaded through. -/
def collectSwitchLabels (node : List Nat) : Stmt → Nat × SwitchCtx → Nat × SwitchCtx
  | .caseSection value body, ctx =>
    collectSwitchLabels (node ++ [1]) body (addSwitchLabel node (some value) ctx)
  | .defaultSection body, ctx =>
    collectSwitchLabels (node ++ [0]) body (addSwitchLabel node none ctx)
  | .switchStmt _ _, ctx => ctx
  | .declList decls, ctx => collectSwitchLabelsList node 0 decls ctx
  | .ifStmt _ thenBody elseBody, ctx =>
    collectSwitchLabelsOption (node ++ [2]) elseBody
      (collectSwitchLabels (node ++ [1]) thenBody ctx)
  | .whileStmt _ body, ctx => collectSwitchLabels (node ++ [1]) body ctx
  | .doWhileStmt body _, ctx => collectSwitchLabels (node ++ [0]) body ctx
  | .forStmt init _ _ body, ctx =>
    collectSwitchLabels (node ++ [3]) body (collectSwitchLabelsOption (node ++ [0]) init ctx)
  | .labelStmt _ body, ctx => collectSwitchLabels (node ++ [0]) body ctx
  | .block stmts, ctx => collectSwitchLabelsList node 0 stmts ctx
  | .declaration _ _, ctx => ctx
  | .returnStmt _, ctx => ctx
  | .breakStmt, ctx => ctx
  | .continueStmt, ctx => ctx
  | .gotoStmt _, ctx => ctx
  | .exprStmt _, ctx => ctx
  | .typedefDecl _, ctx => ctx

def collectSwitchLabelsOption (node : List Nat) : Option Stmt → Nat × SwitchCtx → Nat × SwitchCtx
  | none, ctx => ctx
  | some s, ctx => collectSwitchLabels node s ctx

def collectSwitchLabelsList (node : List Nat) (index : Nat) :
    List Stmt → Nat × SwitchCtx → Nat × SwitchCtx
  | [], ctx => ctx
  | s :: ss, ctx =>
    collectSwitchLabelsList node (index + 1) ss (collectSwitchLabels (node ++ [index]) s ctx)

end

def switchLookupLabel (ctx : SwitchCtx) (node : List Nat) : Int :=
  ((ctx.entries.find? (·.node = node)).map SwitchLabel.label).getD (-1)

mutual

def userLabelsOf : Stmt → List String
  | .labelStmt name body => name :: userLabelsOf body
  | .declList decls => userLabelsOfList decls
  | .ifStmt _ thenBody elseBody => userLabelsOf thenBody ++ userLabelsOfOption elseBody
  | .whileStmt _ body => userLabelsOf body
  | .doWhileStmt body _ => userLabelsOf body
  | .forStmt init _ _ body => userLabelsOfOption init ++ userLabelsOf body
  | .switchStmt _ body => userLabelsOf body
  | .caseSection _ body => userLabelsOf body
  | .defaultSection body => userLabelsOf body
  | .block stmts => userLabelsOfList stmts
  | .declaration _ _ => []
  | .returnStmt _ => []
  | .breakStmt => []
  | .continueStmt => []
  | .gotoStmt _ => []
  | .exprStmt _ => []
  | .typedefDecl _ => []

def userLabelsOfOption : Option Stmt → List String
  | none => []
  | some s => userLabelsOf s

def userLabelsOfList : List Stmt → List String
  | [] => []
  | s :: ss => userLabelsOf s ++ userLabelsOfList ss

end

def addUserLabels : List String → Gen Unit
  | [] => pure ()
  | name :: names => do
    let cg ← get
    errorIf (name ∈ cg.userLabels)
      s!"error: duplicate label '{name}' in function '{cg.currentFunc}'"
    set { cg with userLabels := cg.userLabels ++ [name] }
    addUserLabels names

/-- Enters every label of the body in the order of the walk; a second one of a name is an error. -/
def collectUserLabels (body : List Stmt) : Gen Unit := addUserLabels (userLabelsOfList body)

def pushBreak (breakLabel continueLabel : Int) : Gen Unit :=
  modify fun cg => { cg with breakStack := ⟨breakLabel, continueLabel⟩ :: cg.breakStack }

def popBreak : Gen Unit := modify fun cg => { cg with breakStack := cg.breakStack.tail }

/-- Runs `body` in a scope of its own: its declarations are dropped at the end. -/
def inScope (body : Gen Unit) : Gen Unit := do
  let saved ← get
  set { saved with scopeStart := saved.locals.length }
  body
  modify fun cg =>
    { cg with locals := cg.locals.take saved.locals.length, scopeStart := saved.scopeStart }

def emitEpilogue : Gen Unit :=
  emitAll [
    movMem .qword .r12 (frame 16), movMem .qword .r13 (frame 24),
    movMem .qword .r14 (frame 32), movMem .qword .r15 (frame 40),
    movMem .qword .rbx (frame 8), movReg .qword .rsp .rbp, .pop .rbp, .ret]

def genCondition (cond : ExprGen) : Gen Unit := do
  let a ← cond.codegenExpression
  emitAll (emitCondCmpZero a.resultType)

def genReturnVoid : Gen Unit := do
  let cg ← get
  errorIf (cg.currentReturnType ≠ .void)
    s!"error: empty return statement in non-void function '{cg.currentFunc}'"
  emitEpilogue

/-- The struct's address is in `rax`. -/
def returnStructCode (sretOffset size : Nat) : List Asm :=
  if size > 16 then
    [movReg .qword .rsi .rax, movMem .qword .rdi (frame sretOffset)] ++ emitStructCopy size ++
      [movMem .qword .rax (frame sretOffset)]
  else
    [movReg .qword .r11 .rax, movMem .qword .rax (through .r11)] ++
      (if size > 8 then [movMem .qword .rdx (.based .r11 8)] else [])

def genReturnStruct (value : ExprGen) : Gen Unit := do
  let cg ← get
  let st ← value.emitStructAddr
  emitAll (returnStructCode cg.currentSretOffset (cg.currentReturnFullType.elim st.size CType.size))
  emitEpilogue

def checkReturnPointer (cg : CodeGen) (a : Ann) : Gen Unit := do
  errorIf (cg.currentReturnType ≠ .pointer)
    s!"error: function '{cg.currentFunc}' returning pointer from non pointer function"
  errorIf (a.resultType ≠ .pointer)
    s!"error: function '{cg.currentFunc}' returning non pointer; expected pointer"
  errorIf (pointerTypesAssignable a.fullType cg.currentReturnFullType = false ∧
      pointerTypesAssignable cg.currentReturnFullType a.fullType = false ∧
      pointerTypesEqual a.fullType cg.currentReturnFullType = false)
    s!"error: function '{cg.currentFunc}' returning incorrect pointer type"

def convertReturn (cg : CodeGen) (value : Expr) (a : Ann) : Gen Unit :=
  if cg.currentReturnType = .pointer ∧ isNullPointerConstant value = true then pure ()
  else if cg.currentReturnType = .pointer ∨ a.resultType = .pointer then checkReturnPointer cg a
  else emitAll (emitConvert a.resultType cg.currentReturnType)

def genReturnScalar (value : ExprGen) : Gen Unit := do
  let a ← value.codegenExpression
  let cg ← get
  convertReturn cg value.node a
  emitEpilogue

def genReturn (value : ExprGen) : Gen Unit := do
  let cg ← get
  errorIf (cg.currentReturnType = .void)
    s!"error: void function '{cg.currentFunc}' cannot return a value"
  errorIf (isVoidCall value.node) "error: cannot use void function result as return value"
  if isStructOrUnionKind cg.currentReturnType then genReturnStruct value
  else genReturnScalar value

def genIfElse (cond : ExprGen) (thenBody elseBody : Gen Unit) : Gen Unit := do
  let labelId ← newLabel
  genCondition cond
  emitJcc .e .elseBranch labelId
  thenBody
  emitJmp .endIf labelId
  emitLabel .elseBranch labelId
  elseBody
  emitLabel .endIf labelId

def genIf (cond : ExprGen) (thenBody : Gen Unit) : Gen Unit := do
  let labelId ← newLabel
  genCondition cond
  emitJcc .e .endIf labelId
  thenBody
  emitLabel .endIf labelId

def genWhile (cond : ExprGen) (body : Gen Unit) : Gen Unit := do
  let labelId ← newLabel
  pushBreak labelId labelId
  emitLabel .whileStart labelId
  emitLabel .continueTo labelId
  genCondition cond
  emitJcc .e .whileEnd labelId
  body
  emitJmp .whileStart labelId
  emitLabel .whileEnd labelId
  emitLabel .breakTo labelId
  popBreak

def genDoWhile (body : Gen Unit) (cond : ExprGen) : Gen Unit := do
  let labelId ← newLabel
  pushBreak labelId labelId
  emitLabel .doStart labelId
  body
  emitLabel .continueTo labelId
  genCondition cond
  emitJcc .ne .doStart labelId
  emitLabel .doEnd labelId
  emitLabel .breakTo labelId
  popBreak

def genForCondition (labelId : Nat) : Option ExprGen → Gen Unit
  | none => pure ()
  | some cond => do
    genCondition cond
    emitJcc .e .forEnd labelId

def genForUpdate : Option ExprGen → Gen Unit
  | none => pure ()
  | some update => do
    let _ ← update.codegenExpression

def genFor (init : Gen Unit) (cond update : Option ExprGen) (body : Gen Unit) : Gen Unit := do
  let labelId ← newLabel
  pushBreak labelId labelId
  inScope do
    init
    emitLabel .forStart labelId
    genForCondition labelId cond
    body
    emitLabel .continueTo labelId
    genForUpdate update
    emitJmp .forStart labelId
    emitLabel .forEnd labelId
    emitLabel .breakTo labelId
    popBreak

def dispatchCase (w : Width) (entry : SwitchLabel) : List Asm :=
  match entry.caseValue with
  | none => []
  | some value =>
    [movMem w .rax (stackArg 0), aluImm .cmp w .rax value,
      .jcc .e (.numbered .switchSec entry.label)]

def switchWidth (kind : TypeKind) : Width :=
  if kind = .long ∨ kind = .longLong ∨ kind = .unsignedLongLong then .qword else .dword

def switchDefault (ctx : SwitchCtx) (labelId : Nat) : Asm :=
  if ctx.defaultLabel ≠ -1 then .jmp (.numbered .switchSec ctx.defaultLabel)
  else .jmp (.numbered .switchEnd labelId)

/-- `collect` is the walk over the body that fills the label table. -/
def beginSwitch (collect : Nat × SwitchCtx → Nat × SwitchCtx) : Gen SwitchCtx := do
  let cg ← get
  let (labelCount, ctx) := collect (cg.labelCount, ⟨[], -1⟩)
  set { cg with labelCount, switchStack := ctx :: cg.switchStack }
  pure ctx

def popSwitch : Gen Unit := modify fun cg => { cg with switchStack := cg.switchStack.tail }

def genSwitch (collect : Nat × SwitchCtx → Nat × SwitchCtx) (value : ExprGen) (body : Gen Unit) :
    Gen Unit := do
  let labelId ← newLabel
  let ctx ← beginSwitch collect
  let a ← value.codegenExpression
  pushReg .rax
  emitAll (ctx.entries.flatMap (dispatchCase (switchWidth a.resultType)))
  emit (switchDefault ctx labelId)
  pushBreak labelId (-1)
  body
  popSwitch
  popBreak
  emitLabel .switchEnd labelId
  emitLabel .breakTo labelId
  emit (addRsp 8)
  pushDepthDec

def genSection (node : List Nat) (body : Gen Unit) : Gen Unit := do
  let cg ← get
  match cg.switchStack with
  | [] => throw "segmentation fault: no enclosing switch"
  | ctx :: _ => do
    emitLabel .switchSec (switchLookupLabel ctx node)
    body

def genUserLabel (name : String) (body : Gen Unit) : Gen Unit := do
  let cg ← get
  emit (.label (.user cg.currentFunc name))
  body

def genGoto (name : String) : Gen Unit := do
  let cg ← get
  if name ∈ cg.userLabels then emit (.jmp (.user cg.currentFunc name))
  else throw s!"error: undefined label '{name}' in function '{cg.currentFunc}'"

def genBreak : Gen Unit := do
  let cg ← get
  match cg.breakStack with
  | [] => throw "segmentation fault: empty break stack"
  | top :: _ => emitJmp .breakTo top.breakLabel

def continueTarget (stack : List BreakFrame) : Int :=
  ((stack.find? (·.continueLabel ≠ -1)).map BreakFrame.continueLabel).getD (-1)

def genContinue : Gen Unit := do
  let cg ← get
  emitJmp .continueTo (continueTarget cg.breakStack)

mutual

/-- `node` is the statement's path from the function body. -/
def codegenStatement (node : List Nat) : Stmt → Gen Unit
  | .declaration info init => genDeclaration info (init.map codegen)
  | .declList decls => codegenStatements node 0 decls
  | .returnStmt none => genReturnVoid
  | .returnStmt (some value) => genReturn (codegen value)
  | .ifStmt cond thenBody none => genIf (codegen cond) (codegenStatement (node ++ [1]) thenBody)
  | .ifStmt cond thenBody (some elseBody) =>
    genIfElse (codegen cond) (codegenStatement (node ++ [1]) thenBody)
      (codegenStatement (node ++ [2]) elseBody)
  | .whileStmt cond body => genWhile (codegen cond) (codegenStatement (node ++ [1]) body)
  | .doWhileStmt body cond => genDoWhile (codegenStatement (node ++ [0]) body) (codegen cond)
  | .forStmt init cond update body =>
    genFor (codegenForInit (node ++ [0]) init) (cond.map codegen) (update.map codegen)
      (codegenStatement (node ++ [3]) body)
  | .switchStmt value body =>
    genSwitch (collectSwitchLabels (node ++ [1]) body) (codegen value)
      (codegenStatement (node ++ [1]) body)
  | .caseSection _ body => genSection node (codegenStatement (node ++ [1]) body)
  | .defaultSection body => genSection node (codegenStatement (node ++ [0]) body)
  | .breakStmt => genBreak
  | .continueStmt => genContinue
  | .gotoStmt name => genGoto name
  | .labelStmt name body => genUserLabel name (codegenStatement (node ++ [0]) body)
  | .block stmts => inScope (codegenStatements node 0 stmts)
  | .exprStmt value => do
    let _ ← (codegen value).codegenExpression
  | .typedefDecl _ => pure ()

def codegenForInit (node : List Nat) : Option Stmt → Gen Unit
  | none => pure ()
  | some s => codegenStatement node s

def codegenStatements (node : List Nat) (index : Nat) : List Stmt → Gen Unit
  | [] => pure ()
  | s :: ss => do
    codegenStatement (node ++ [index]) s
    codegenStatements node (index + 1) ss

end

end ClaudeC99
