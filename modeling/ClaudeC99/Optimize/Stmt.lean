import ClaudeC99.Optimize.Expr

/-! The statement rewrites of the AST optimizer, and its pass over a function body. -/

namespace ClaudeC99

def isTerminalStmt : Stmt → Bool
  | .returnStmt _ | .breakStmt | .continueStmt | .gotoStmt _ => true
  | _ => false

/-- The statements at which the removal of dead siblings stops. -/
def isLabeled : Stmt → Bool
  | .labelStmt _ _ | .caseSection _ _ | .defaultSection _ => true
  | _ => false

/-- The entry that a declaration adds to the table; `value` is its optimized initializer. -/
def constEntry (table : ConstTable) (info : DeclInfo) (value : Option Expr) : Option ConstEntry :=
  match value.bind Expr.literal with
  | some v =>
    if info.isConst ∧ isScalarIntType info.declType ∧ table.length < constPropMax then
      some ⟨info.name, v, info.declType, info.isUnsigned⟩
    else none
  | none => none

def recordConst (table : ConstTable) (info : DeclInfo) (value : Option Expr) : ConstTable :=
  (constEntry table info value).toList ++ table

/-- The declarations of a list are expressions to the optimizer: only their initializers change. -/
def optimizeListed (table : ConstTable) : Stmt → Stmt
  | .declaration info value => .declaration info (value.map (optimizeExpr table))
  | s => s

mutual

/-- Returns the new statement and the table after it. -/
def optimizeStmt (table : ConstTable) : Stmt → Stmt × ConstTable
  | .block stmts => (.block (optimizeBlock table false stmts), table)
  | .ifStmt cond thenBody elseBody =>
    let cond' := optimizeExpr table cond
    let (then', table₁) := optimizeStmt table thenBody
    let (else', table₂) := optimizeOption table₁ elseBody
    match cond'.literal with
    | some v => (if v ≠ 0 then then' else else'.getD (.block []), table₂)
    | none => (.ifStmt cond' then' else', table₂)
  | .whileStmt cond body =>
    let cond' := optimizeExpr table cond
    let (body', table') := optimizeStmt table body
    (if cond'.literal = some 0 then .block [] else .whileStmt cond' body', table')
  | .doWhileStmt body cond =>
    let (body', table') := optimizeStmt table body
    (.doWhileStmt body' (optimizeExpr table' cond), table')
  | .forStmt init cond update body =>
    let (init', table₁) := optimizeForInit table init
    let cond' := cond.map (optimizeExpr table₁)
    let update' := update.map (optimizeExpr table₁)
    let (body', table₂) := optimizeStmt table₁ body
    (if cond'.bind Expr.literal = some 0 then init'.getD (.block [])
      else .forStmt init' cond' update' body', table₂)
  | .switchStmt value body =>
    let value' := optimizeExpr table value
    let (body', table') := optimizeStmt table body
    (.switchStmt value' body', table')
  | .returnStmt value => (.returnStmt (value.map (optimizeExpr table)), table)
  | .exprStmt value => (.exprStmt (optimizeExpr table value), table)
  | .declaration info value =>
    let value' := value.map (optimizeExpr table)
    (.declaration info value', recordConst table info value')
  | .declList decls => (.declList (decls.map (optimizeListed table)), table)
  | .labelStmt name body =>
    let (body', table') := optimizeStmt table body
    (.labelStmt name body', table')
  | .caseSection value body =>
    let (body', table') := optimizeStmt table body
    (.caseSection value body', table')
  | .defaultSection body =>
    let (body', table') := optimizeStmt table body
    (.defaultSection body', table')
  | .breakStmt => (.breakStmt, table)
  | .continueStmt => (.continueStmt, table)
  | .gotoStmt name => (.gotoStmt name, table)
  | .typedefDecl declared => (.typedefDecl declared, table)

def optimizeOption (table : ConstTable) : Option Stmt → Option Stmt × ConstTable
  | none => (none, table)
  | some s =>
    let (s', table') := optimizeStmt table s
    (some s', table')

/-- An expression in the header of a `for` is not a statement: only its children are optimized. -/
def optimizeForInit (table : ConstTable) : Option Stmt → Option Stmt × ConstTable
  | none => (none, table)
  | some (.exprStmt value) => (some (.exprStmt (optimizeChildren table value)), table)
  | some s =>
    let (s', table') := optimizeStmt table s
    (some s', table')

/-- The loop over the statements of a block. While `dead`, it removes what is not labeled. -/
def optimizeBlock (table : ConstTable) (dead : Bool) : List Stmt → List Stmt
  | [] => []
  | s :: rest =>
    if dead ∧ ¬ isLabeled s then optimizeBlock table true rest
    else
      let (s', table') := optimizeStmt table s
      s' :: optimizeBlock table' (isTerminalStmt s') rest

end

mutual

/-- The table after a statement: only a block gives back the table it found. -/
def constsAfter (table : ConstTable) : Stmt → ConstTable
  | .ifStmt _ thenBody elseBody => constsAfterOption (constsAfter table thenBody) elseBody
  | .whileStmt _ body | .doWhileStmt body _ | .switchStmt _ body | .labelStmt _ body
  | .caseSection _ body | .defaultSection body => constsAfter table body
  | .forStmt init _ _ body => constsAfter (constsAfterOption table init) body
  | .declaration info value => recordConst table info (value.map (optimizeExpr table))
  | .block _ | .declList _ | .returnStmt _ | .exprStmt _ | .breakStmt | .continueStmt
  | .gotoStmt _ | .typedefDecl _ => table

def constsAfterOption (table : ConstTable) : Option Stmt → ConstTable
  | none => table
  | some s => constsAfter table s

end

mutual

@[simp] theorem optimizeStmt_table : ∀ (table : ConstTable) (s : Stmt),
    (optimizeStmt table s).2 = constsAfter table s
  | table, .ifStmt cond thenBody elseBody => by
    have h_then := optimizeStmt_table table thenBody
    have h_else := optimizeOption_table (constsAfter table thenBody) elseBody
    simp only [optimizeStmt, constsAfter, h_then]
    split <;> exact h_else
  | table, .whileStmt _ body | table, .doWhileStmt body _ | table, .switchStmt _ body
  | table, .labelStmt _ body | table, .caseSection _ body | table, .defaultSection body => by
    simp [optimizeStmt, constsAfter, optimizeStmt_table table body]
  | table, .forStmt init _ _ body => by
    have h_init := optimizeForInit_table table init
    simp only [optimizeStmt, constsAfter, h_init]
    exact optimizeStmt_table _ body
  | _, .declaration _ _ | _, .block _ | _, .declList _ | _, .returnStmt _ | _, .exprStmt _
  | _, .breakStmt | _, .continueStmt | _, .gotoStmt _ | _, .typedefDecl _ => by
    simp [optimizeStmt, constsAfter]

@[simp] theorem optimizeOption_table : ∀ (table : ConstTable) (s : Option Stmt),
    (optimizeOption table s).2 = constsAfterOption table s
  | _, none => rfl
  | table, some s => by simp [optimizeOption, constsAfterOption, optimizeStmt_table table s]

@[simp] theorem optimizeForInit_table : ∀ (table : ConstTable) (s : Option Stmt),
    (optimizeForInit table s).2 = constsAfterOption table s
  | _, none => rfl
  | _, some (.exprStmt _) => rfl
  | table, some s => by
    have h := optimizeStmt_table table s
    cases s <;> simp only [optimizeForInit, constsAfterOption, h]
    rfl

end

/-- `optimize_translation_unit` resets the table before each function body. -/
def optimizeBody (body : List Stmt) : List Stmt := optimizeBlock [] false body

end ClaudeC99
