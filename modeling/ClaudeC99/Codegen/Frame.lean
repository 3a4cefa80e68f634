import ClaudeC99.Codegen.Statement

/-! The walks over a function body that size its frame and place its compound literals. -/

namespace ClaudeC99

open X86

mutual

/-- The sum of `f` over a node and all its descendants. -/
def Expr.total (f : Expr → Nat) : Expr → Nat
  | .intLiteral v k u => f (.intLiteral v k u)
  | .charLiteral b => f (.charLiteral b)
  | .floatLiteral t k => f (.floatLiteral t k)
  | .stringLiteral bs => f (.stringLiteral bs)
  | .varRef n => f (.varRef n)
  | .assignment n v => f (.assignment n v) + v.total f
  | .assignmentTo t v => f (.assignmentTo t v) + t.total f + v.total f
  | .addrOf e => f (.addrOf e) + e.total f
  | .deref e => f (.deref e) + e.total f
  | .arrayIndex b i => f (.arrayIndex b i) + b.total f + i.total f
  | .memberAccess b m => f (.memberAccess b m) + b.total f
  | .arrowAccess b m => f (.arrowAccess b m) + b.total f
  | .sizeofType k t => f (.sizeofType k t)
  | .sizeofExpr e => f (.sizeofExpr e) + e.total f
  | .unaryOp op e => f (.unaryOp op e) + e.total f
  | .binaryOp op l r k => f (.binaryOp op l r k) + l.total f + r.total f
  | .prefixIncDec op e => f (.prefixIncDec op e) + e.total f
  | .postfixIncDec op e => f (.postfixIncDec op e) + e.total f
  | .cast k u t e => f (.cast k u t e) + e.total f
  | .functionCall n k args => f (.functionCall n k args) + Expr.totalList f args
  | .indirectCall c args => f (.indirectCall c args) + c.total f + Expr.totalList f args
  | .conditional c t e => f (.conditional c t e) + c.total f + t.total f + e.total f
  | .comma l r => f (.comma l r) + l.total f + r.total f
  | .initializerList es => f (.initializerList es) + Expr.totalList f es
  | .designatedMember m v => f (.designatedMember m v) + v.total f
  | .designatedIndex i v => f (.designatedIndex i v) + v.total f
  | .compoundLiteral k t u s i => f (.compoundLiteral k t u s i) + i.total f
  | .vaStart a l => f (.vaStart a l) + a.total f + l.total f
  | .vaEnd a => f (.vaEnd a) + a.total f
  | .vaCopy d s => f (.vaCopy d s) + d.total f + s.total f
  | .vaArg a t => f (.vaArg a t) + a.total f

def Expr.totalList (f : Expr → Nat) : List Expr → Nat
  | [] => 0
  | e :: es => e.total f + Expr.totalList f es

end

def Expr.totalOption (f : Expr → Nat) : Option Expr → Nat
  | none => 0
  | some e => e.total f

mutual

/-- The sum of `d` over the declarations and of `f` over the expression nodes of a statement. -/
def Stmt.total (d : DeclInfo → Nat) (f : Expr → Nat) : Stmt → Nat
  | .declaration info init => d info + Expr.totalOption f init
  | .declList decls => Stmt.totalList d f decls
  | .returnStmt value => Expr.totalOption f value
  | .ifStmt cond thenBody elseBody =>
    cond.total f + thenBody.total d f + Stmt.totalOption d f elseBody
  | .whileStmt cond body => cond.total f + body.total d f
  | .doWhileStmt body cond => body.total d f + cond.total f
  | .forStmt init cond update body =>
    Stmt.totalOption d f init + Expr.totalOption f cond + Expr.totalOption f update +
      body.total d f
  | .switchStmt value body => value.total f + body.total d f
  | .caseSection _ body => body.total d f
  | .defaultSection body => body.total d f
  | .labelStmt _ body => body.total d f
  | .block stmts => Stmt.totalList d f stmts
  | .exprStmt value => value.total f
  | .breakStmt => 0
  | .continueStmt => 0
  | .gotoStmt _ => 0
  | .typedefDecl _ => 0

def Stmt.totalOption (d : DeclInfo → Nat) (f : Expr → Nat) : Option Stmt → Nat
  | none => 0
  | some s => s.total d f

def Stmt.totalList (d : DeclInfo → Nat) (f : Expr → Nat) : List Stmt → Nat
  | [] => 0
  | s :: ss => s.total d f + Stmt.totalList d f ss

end

def declBytes (info : DeclInfo) : Nat :=
  match info.declType, info.fullType with
  | .array, some t => t.size + 7
  | .struct, some t => t.size + (t.alignment - 1)
  | .union, some t => t.size + (t.alignment - 1)
  | _, _ => 8

def computeDeclBytes (body : List Stmt) : Nat := Stmt.totalList declBytes (fun _ => 0) body

/-- Size and alignment of a compound literal's object. -/
def compoundLiteralLayout (declType : TypeKind) (fullType : Option CType) : Nat × Nat :=
  match fullType with
  | some t => (t.size, t.alignment)
  | none => (typeKindBytes declType, typeKindBytes declType)

def compoundLiteralBytes : Expr → Nat
  | .compoundLiteral declType fullType _ _ _ =>
    let (size, align) := compoundLiteralLayout declType fullType
    size + (if align > 1 then align - 1 else 0)
  | _ => 0

def computeCompoundLiteralBytes (body : List Stmt) : Nat :=
  Stmt.totalList (fun _ => 0) compoundLiteralBytes body

def structRetBytes (cg : CodeGen) : Expr → Nat
  | .functionCall name _ _ =>
    match (cg.findFunctionDecl name).bind fun f => recordType f.declType f.fullType with
    | some t => alignUp t.size 8 + 8
    | none => 0
  | .vaArg _ type =>
    if isStructOrUnionKind type.kind ∧ type.size > 0 then alignUp type.size 8 + 8 else 0
  | _ => 0

def computeStructRetBytes (cg : CodeGen) (body : List Stmt) : Nat :=
  Stmt.totalList (fun _ => 0) (structRetBytes cg) body

def claimLiteralSlot (declType : TypeKind) (fullType : Option CType) : Gen Nat := do
  let (size, align) := compoundLiteralLayout declType fullType
  let cg ← get
  let offset :=
    if align > 1 then alignUp (cg.stackOffset + size) align else cg.stackOffset + size
  set { cg with stackOffset := offset }
  recordSlot offset size (max align 1)
  pure offset

mutual

/-- `scan_expr_compound_literals` on expressions. -/
def scanExpr : Expr → Gen Expr
  | .intLiteral v k u => pure (.intLiteral v k u)
  | .charLiteral b => pure (.charLiteral b)
  | .floatLiteral t k => pure (.floatLiteral t k)
  | .stringLiteral bs => pure (.stringLiteral bs)
  | .varRef n => pure (.varRef n)
  | .assignment n v => do
    let v ← scanExpr v
    pure (.assignment n v)
  | .assignmentTo t v => do
    let t ← scanExpr t
    let v ← scanExpr v
    pure (.assignmentTo t v)
  | .addrOf e => do
    let e ← scanExpr e
    pure (.addrOf e)
  | .deref e => do
    let e ← scanExpr e
    pure (.deref e)
  | .arrayIndex b i => do
    let b ← scanExpr b
    let i ← scanExpr i
    pure (.arrayIndex b i)
  | .memberAccess b m => do
    let b ← scanExpr b
    pure (.memberAccess b m)
  | .arrowAccess b m => do
    let b ← scanExpr b
    pure (.arrowAccess b m)
  | .sizeofType k t => pure (.sizeofType k t)
  | .sizeofExpr e => do
    let e ← scanExpr e
    pure (.sizeofExpr e)
  | .unaryOp op e => do
    let e ← scanExpr e
    pure (.unaryOp op e)
  | .binaryOp op l r k => do
    let l ← scanExpr l
    let r ← scanExpr r
    pure (.binaryOp op l r k)
  | .prefixIncDec op e => do
    let e ← scanExpr e
    pure (.prefixIncDec op e)
  | .postfixIncDec op e => do
    let e ← scanExpr e
    pure (.postfixIncDec op e)
  | .cast k u t e => do
    let e ← scanExpr e
    pure (.cast k u t e)
  | .functionCall n k args => do
    let args ← scanExprs args
    pure (.functionCall n k args)
  | .indirectCall c args => do
    let c ← scanExpr c
    let args ← scanExprs args
    pure (.indirectCall c args)
  | .conditional c t e => do
    let c ← scanExpr c
    let t ← scanExpr t
    let e ← scanExpr e
    pure (.conditional c t e)
  | .comma l r => do
    let l ← scanExpr l
    let r ← scanExpr r
    pure (.comma l r)
  | .initializerList es => do
    let es ← scanExprs es
    pure (.initializerList es)
  | .designatedMember m v => do
    let v ← scanExpr v
    pure (.designatedMember m v)
  | .designatedIndex i v => do
    let v ← scanExpr v
    pure (.designatedIndex i v)
  | .compoundLiteral k t u _ init => do
    let slot ← claimLiteralSlot k t
    let init ← scanExpr init
    pure (.compoundLiteral k t u slot init)
  | .vaStart a l => do
    let a ← scanExpr a
    let l ← scanExpr l
    pure (.vaStart a l)
  | .vaEnd a => do
    let a ← scanExpr a
    pure (.vaEnd a)
  | .vaCopy d s => do
    let d ← scanExpr d
    let s ← scanExpr s
    pure (.vaCopy d s)
  | .vaArg a t => do
    let a ← scanExpr a
    pure (.vaArg a t)

def scanExprs : List Expr → Gen (List Expr)
  | [] => pure []
  | e :: es => do
    let e ← scanExpr e
    let es ← scanExprs es
    pure (e :: es)

end

def scanOptionExpr : Option Expr → Gen (Option Expr)
  | none => pure none
  | some e => do
    let e ← scanExpr e
    pure (some e)

mutual

/-- `scan_expr_compound_literals` on statements. -/
def scanStmt : Stmt → Gen Stmt
  | .declaration info init => do
    let init ← scanOptionExpr init
    pure (.declaration info init)
  | .declList decls => do
    let decls ← scanStmts decls
    pure (.declList decls)
  | .returnStmt value => do
    let value ← scanOptionExpr value
    pure (.returnStmt value)
  | .ifStmt cond thenBody elseBody => do
    let cond ← scanExpr cond
    let thenBody ← scanStmt thenBody
    let elseBody ← scanOptionStmt elseBody
    pure (.ifStmt cond thenBody elseBody)
  | .whileStmt cond body => do
    let cond ← scanExpr cond
    let body ← scanStmt body
    pure (.whileStmt cond body)
  | .doWhileStmt body cond => do
    let body ← scanStmt body
    let cond ← scanExpr cond
    pure (.doWhileStmt body cond)
  | .forStmt init cond update body => do
    let init ← scanOptionStmt init
    let cond ← scanOptionExpr cond
    let update ← scanOptionExpr update
    let body ← scanStmt body
    pure (.forStmt init cond update body)
  | .switchStmt value body => do
    let value ← scanExpr value
    let body ← scanStmt body
    pure (.switchStmt value body)
  | .caseSection value body => do
    let body ← scanStmt body
    pure (.caseSection value body)
  | .defaultSection body => do
    let body ← scanStmt body
    pure (.defaultSection body)
  | .labelStmt name body => do
    let body ← scanStmt body
    pure (.labelStmt name body)
  | .block stmts => do
    let stmts ← scanStmts stmts
    pure (.block stmts)
  | .exprStmt value => do
    let value ← scanExpr value
    pure (.exprStmt value)
  | .breakStmt => pure .breakStmt
  | .continueStmt => pure .continueStmt
  | .gotoStmt name => pure (.gotoStmt name)
  | .typedefDecl declared => pure (.typedefDecl declared)

def scanOptionStmt : Option Stmt → Gen (Option Stmt)
  | none => pure none
  | some s => do
    let s ← scanStmt s
    pure (some s)

def scanStmts : List Stmt → Gen (List Stmt)
  | [] => pure []
  | s :: ss => do
    let s ← scanStmt s
    let ss ← scanStmts ss
    pure (s :: ss)

end

end ClaudeC99
